import RevisionForest.Utf8

/-!
# Hexadecimal

Bytes are written with two lower-case digits each and read back in either case. Reading works on the bytes of a text, so that it can name the first byte that is no digit.
-/

namespace RevisionForest.Hex

/-- The digit of a number below sixteen. -/
def digit (n : UInt8) : Char :=
  Char.ofNat (if n < 10 then 48 + n.toNat else 87 + n.toNat)

def encode : Bytes → List Char
  | [] => []
  | byte :: rest => digit (byte / 16) :: digit (byte % 16) :: encode rest

/-- The number that an ASCII digit stands for. -/
def value? (byte : UInt8) : Option UInt8 :=
  if 48 ≤ byte && byte ≤ 57 then some (byte - 48)
  else if 97 ≤ byte && byte ≤ 102 then some (byte - 87)
  else if 65 ≤ byte && byte ≤ 70 then some (byte - 55)
  else none

/-- Read pairs of digits; the failure is the first byte that is no digit, or the last one where a pair is incomplete. -/
def decode : Bytes → Except UInt8 Bytes
  | [] => .ok []
  | [byte] => .error byte
  | high :: low :: rest =>
    match value? high, value? low with
    | none, _ => .error high
    | some _, none => .error low
    | some upper, some lower => (decode rest).map ((upper * 16 + lower) :: ·)

/-! ### Reading back what is written -/

theorem length_encode (bytes : Bytes) : (encode bytes).length = 2 * bytes.length := by
  induction bytes with
  | nil => rfl
  | cons byte rest ih =>
    simp only [encode, List.length_cons, ih]
    omega

theorem value?_digit_ofNat :
    ∀ k ∈ List.range 16, value? (digit (UInt8.ofNat k)).toNat.toUInt8 = some (UInt8.ofNat k) := by
  decide

theorem digit_ofNat_lt : ∀ k ∈ List.range 16, (digit (UInt8.ofNat k)).toNat < 128 := by
  decide

theorem value?_digit {n : UInt8} (h : n < 16) : value? (digit n).toNat.toUInt8 = some n := by
  have := value?_digit_ofNat n.toNat (List.mem_range.mpr (UInt8.lt_iff_toNat_lt.mp h))
  rwa [UInt8.ofNat_toNat] at this

theorem digit_lt {n : UInt8} (h : n < 16) : (digit n).toNat < 128 := by
  have := digit_ofNat_lt n.toNat (List.mem_range.mpr (UInt8.lt_iff_toNat_lt.mp h))
  rwa [UInt8.ofNat_toNat] at this

theorem high_lt (byte : UInt8) : byte / 16 < 16 := by
  rw [UInt8.lt_iff_toNat_lt, UInt8.toNat_div]
  have := byte.toNat_lt
  simp only [UInt8.reduceToNat]
  omega

theorem low_lt (byte : UInt8) : byte % 16 < 16 := by
  rw [UInt8.lt_iff_toNat_lt, UInt8.toNat_mod]
  simp only [UInt8.reduceToNat]
  omega

theorem high_low (byte : UInt8) : byte / 16 * 16 + byte % 16 = byte := by
  apply UInt8.toNat_inj.mp
  have := byte.toNat_lt
  simp only [UInt8.toNat_add, UInt8.toNat_mul, UInt8.toNat_div, UInt8.toNat_mod, UInt8.reduceToNat]
  omega

/-- Reading the digits of some bytes gives the bytes. -/
theorem decode_encode (bytes : Bytes) :
    decode ((encode bytes).map fun c => c.toNat.toUInt8) = .ok bytes := by
  induction bytes with
  | nil => rfl
  | cons byte rest ih =>
    simp only [encode, List.map_cons, decode, value?_digit (high_lt byte), value?_digit (low_lt byte), ih]
    exact congrArg (fun b => Except.ok (b :: rest)) (high_low byte)

theorem toNat_lt_of_mem_encode {bytes : Bytes} {c : Char} (h : c ∈ encode bytes) : c.toNat < 128 := by
  induction bytes with
  | nil => exact absurd h List.not_mem_nil
  | cons byte rest ih =>
    simp only [encode, List.mem_cons] at h
    rcases h with h | h | h
    · rw [h]
      exact digit_lt (high_lt byte)
    · rw [h]
      exact digit_lt (low_lt byte)
    · exact ih h

end RevisionForest.Hex
