import RevisionForest.Blake3
import RevisionForest.Hex

/-!
# Digests

The name of a blob: the BLAKE3 hash of its bytes, written as 64 hexadecimal digits. The type holds exactly 32 bytes; reading a text says which of its two conditions fails, the length or the digits.
-/

namespace RevisionForest

structure Digest where
  bytes : Bytes
  length_bytes : bytes.length = 32
  deriving DecidableEq

namespace Digest

/-- Why a text is no digest. -/
inductive Malformed where
  | length (bytes : Nat)
  | byte (first : UInt8)
  deriving DecidableEq, Repr

/-- The digest of some data. -/
def of (data : Bytes) : Digest :=
  ⟨(Blake3.hash data).toList, Vector.length_toList⟩

def toHex (digest : Digest) : String :=
  String.ofList (Hex.encode digest.bytes)

/-- Read 64 digits in either case. -/
def ofHex (text : String) : Except Malformed Digest :=
  let digits := Utf8.encode text
  if digits.length = 64 then
    match Hex.decode digits with
    | .error first => .error (.byte first)
    | .ok bytes => if h : bytes.length = 32 then .ok ⟨bytes, h⟩ else .error (.length digits.length)
  else
    .error (.length digits.length)

/-- The first bytes of a digest, enough to tell digests apart in a listing. -/
def brief (digest : Digest) : String :=
  "BlobHash(" ++ String.ofList (Hex.encode (digest.bytes.take 2)) ++ "...)"

theorem encode_toHex (digest : Digest) :
    Utf8.encode digest.toHex = (Hex.encode digest.bytes).map fun c => c.toNat.toUInt8 :=
  Utf8.encode_ofList fun _ hc => Hex.toNat_lt_of_mem_encode hc

theorem ofHex_toHex (digest : Digest) : ofHex digest.toHex = .ok digest := by
  have hlength : ((Hex.encode digest.bytes).map fun c => c.toNat.toUInt8).length = 64 := by
    rw [List.length_map, Hex.length_encode, digest.length_bytes]
  simp only [ofHex, encode_toHex, hlength, Hex.decode_encode, digest.length_bytes, ↓reduceIte, ↓reduceDIte]

end Digest

end RevisionForest
