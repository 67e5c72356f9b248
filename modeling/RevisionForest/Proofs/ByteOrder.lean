import RevisionForest.Utf8
import Mathlib.Data.List.Nodup
import Mathlib.Data.String.Basic
/-!
# The order of bytes

Texts are ordered by their characters here and by their bytes where they are stored. The two agree (`Utf8.encode_lt_iff`), since of two characters the lesser has the lesser code, compared byte by byte, and no code is the start of another. What is sorted by texts that differ comes out in one order only (`mergeSort_key_eq_of_perm`).
-/

namespace RevisionForest

namespace Utf8

theorem encode_append (left right : String) : encode (left ++ right) = encode left ++ encode right := by
  simp only [encode, String.toByteArray_append, ByteArray.data_append, Array.toList_append]

theorem encode_cons (c : Char) (chars : List Char) :
    encode (String.ofList (c :: chars)) = String.utf8EncodeChar c ++ encode (String.ofList chars) := by
  simp only [encode, String.toByteArray_ofList, List.utf8Encode, List.flatMap_cons, List.data_toByteArray,
    List.toList_toArray]

theorem byte_lt_iff {left right : Nat} : UInt8.ofNat left < UInt8.ofNat right ↔ left % 256 < right % 256 := by
  rw [UInt8.lt_iff_toNat_lt, UInt8.toNat_ofNat', UInt8.toNat_ofNat']

theorem byte_eq_iff {left right : Nat} : UInt8.ofNat left = UInt8.ofNat right ↔ left % 256 = right % 256 := by
  rw [← UInt8.toNat_inj, UInt8.toNat_ofNat', UInt8.toNat_ofNat']

theorem char_append_lt {c d : Char} (h : c < d) (left right : Bytes) :
    String.utf8EncodeChar c ++ left < String.utf8EncodeChar d ++ right := by
  have hlt : c.val.toNat < d.val.toNat := h
  have hbound : d.val.toNat < 0x110000 := by
    rcases d.valid with hlow | ⟨-, hhigh⟩
    · exact Nat.lt_trans hlow (by decide)
    · exact hhigh
  unfold String.utf8EncodeChar
  generalize c.val.toNat = v, d.val.toNat = w at hlt hbound
  -- A longer code starts with a greater byte; codes of one length are the digits of the numbers to the base 64.
  have hdigits : ∀ value : Nat, value / 4096 = value / 64 / 64 ∧ value / 262144 = value / 64 / 64 / 64 := by
    intro value
    omega
  simp only [hdigits]
  split_ifs <;> simp only [List.cons_append, List.nil_append, List.cons_lt_cons_iff, byte_lt_iff, byte_eq_iff] <;> omega

/-- The order of texts is the order of their bytes. -/
theorem encode_lt {left right : String} (h : left < right) : encode left < encode right := by
  obtain ⟨chars, rfl⟩ : ∃ chars, left = String.ofList chars := ⟨left.toList, String.ofList_toList.symm⟩
  obtain ⟨others, rfl⟩ : ∃ others, right = String.ofList others := ⟨right.toList, String.ofList_toList.symm⟩
  rw [String.lt_iff_toList_lt, String.toList_ofList, String.toList_ofList] at h
  induction chars generalizing others with
  | nil =>
    cases others with
    | nil => exact absurd h (List.lt_irrefl _)
    | cons d others =>
      rw [encode_cons]
      cases hcode : String.utf8EncodeChar d with
      | nil => exact absurd hcode String.utf8EncodeChar_ne_nil
      | cons byte code => exact List.nil_lt_cons byte _
  | cons c chars ih =>
    cases others with
    | nil => exact absurd h (List.not_lt_nil _)
    | cons d others =>
      rw [encode_cons, encode_cons]
      rcases List.cons_lt_cons_iff.mp h with hlt | ⟨rfl, hlt⟩
      · exact char_append_lt hlt _ _
      · exact List.append_left_lt (ih others hlt)

theorem encode_lt_iff {left right : String} : encode left < encode right ↔ left < right := by
  refine ⟨fun h => ?_, encode_lt⟩
  rcases lt_trichotomy left right with hlt | rfl | hgt
  · exact hlt
  · exact absurd h (List.lt_irrefl _)
  · exact absurd h (List.lt_asymm (encode_lt hgt))

end Utf8

/-! ### Lists sorted by a text -/

section Keys

variable {α : Type} {key : α → String} {list other : List α}

theorem mergeSort_pairwise_key (key : α → String) (list : List α) :
    (list.mergeSort fun left right => key left ≤ key right).Pairwise fun left right => key left ≤ key right := by
  have htrans : ∀ first second third, decide (key first ≤ key second) = true → decide (key second ≤ key third) = true →
      decide (key first ≤ key third) = true := by
    intro first second third hfirst hsecond
    exact decide_eq_true (le_trans (of_decide_eq_true hfirst) (of_decide_eq_true hsecond))
  have htotal : ∀ left right, (decide (key left ≤ key right) || decide (key right ≤ key left)) = true := by
    intro left right
    simpa using le_total (key left) (key right)
  exact (List.pairwise_mergeSort htrans htotal list).imp fun h => of_decide_eq_true h

theorem mergeSort_key_ascending (hkeys : (list.map key).Nodup) :
    (list.mergeSort fun left right => key left ≤ key right).Pairwise
      fun left right => Utf8.encode (key left) < Utf8.encode (key right) := by
  have hperm := List.mergeSort_perm list fun left right => key left ≤ key right
  have hnodup := List.pairwise_map.mp ((hperm.map key).nodup_iff.mpr hkeys)
  exact ((mergeSort_pairwise_key key list).and hnodup).imp fun ⟨hle, hne⟩ => Utf8.encode_lt (lt_of_le_of_ne hle hne)

theorem mergeSort_key_eq_of_perm (hkeys : (list.map key).Nodup) (hperm : list.Perm other) :
    (list.mergeSort fun left right => key left ≤ key right) = other.mergeSort fun left right => key left ≤ key right := by
  have hsorted := List.mergeSort_perm list fun left right => key left ≤ key right
  have hsorted' := List.mergeSort_perm other fun left right => key left ≤ key right
  refine List.Perm.eq_of_pairwise ?_ (mergeSort_pairwise_key key list) (mergeSort_pairwise_key key other)
    (hsorted.trans (hperm.trans hsorted'.symm))
  intro first second hfirst hsecond hle hge
  have hfirst := hsorted.mem_iff.mp hfirst
  have hsecond := hperm.mem_iff.mpr (hsorted'.mem_iff.mp hsecond)
  exact List.inj_on_of_nodup_map hkeys hfirst hsecond (le_antisymm hle hge)

end Keys

end RevisionForest
