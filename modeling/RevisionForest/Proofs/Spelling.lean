import RevisionForest.Json.Typed
import RevisionForest.Proofs.ByteOrder
import RevisionForest.Proofs.Legible
import RevisionForest.RevId.Fingerprint
import Mathlib.Data.List.Induction
import Mathlib.Data.List.TakeWhile
import Mathlib.Data.Nat.Digits.Defs
/-!
# How ids are spelled

An id is read from a text whose part before the first dash is a number in decimal and whose part behind it is not empty (`RevId.Spells`). Zeros and a plus sign may lead the number, so an id has many spellings; printing takes the one without them, which is read back. The suffix may hold dashes and digits like any others, since the printed number holds none of the former and the first dash ends it.

So two ids have the same text only if they are the same, and the order of ids, by the number and then by the bytes of the suffix, tells apart whatever their texts tell apart.
-/

namespace RevisionForest

open Std

namespace RevId

variable {text suffix : String} {generation : Nat} {rev left right : RevId}

/-! ### Numbers -/

/-- The number that decimal digits stand for. -/
def numeral (digits : List Char) : Nat :=
  Nat.ofDigits 10 (digits.reverse.map fun c => c.toNat - '0'.toNat)

theorem ofDigitChars_eq_numeral (digits : List Char) : Nat.ofDigitChars 10 digits 0 = numeral digits := by
  induction digits using List.reverseRecOn with
  | nil => rfl
  | append_singleton front last ih =>
    rw [Nat.ofDigitChars_eq_foldl] at ih
    rw [numeral, List.reverse_append, List.reverse_singleton, List.singleton_append, List.map_cons, Nat.ofDigits_cons,
      Nat.ofDigitChars_eq_foldl, List.foldl_append, ih, List.foldl_cons, List.foldl_nil, numeral, Nat.add_comm]

theorem dropPlus_digits {digits : List Char} (hdigits : ∀ c ∈ digits, c.isDigit = true) : dropPlus digits = digits := by
  unfold dropPlus
  split
  · rename_i rest
    exact absurd (hdigits '+' List.mem_cons_self) (by decide)
  · rfl

theorem parseGeneration?_eq_some_iff {chars : List Char} :
    parseGeneration? chars = some generation ↔ ∃ digits, (chars = digits ∨ chars = '+' :: digits) ∧ digits ≠ [] ∧
      (∀ c ∈ digits, c.isDigit = true) ∧ numeral digits = generation ∧ generation < generationBound := by
  simp only [parseGeneration?, ofDigitChars_eq_numeral, List.all_eq_true]
  constructor
  · intro h
    have hsign : chars = dropPlus chars ∨ chars = '+' :: dropPlus chars := by
      unfold dropPlus
      split
      · exact .inr rfl
      · exact .inl rfl
    split at h
    · rename_i hdigits
      split at h
      · rename_i hrange
        obtain rfl := Option.some.inj h
        exact ⟨dropPlus chars, hsign, hdigits.1, hdigits.2, rfl, hrange⟩
      · cases h
    · cases h
  · rintro ⟨digits, hsign, hne, hdigits, rfl, hrange⟩
    have hdrop : dropPlus chars = digits := by
      rcases hsign with rfl | rfl
      · exact dropPlus_digits hdigits
      · rfl
    rw [hdrop, if_pos ⟨hne, hdigits⟩, if_pos hrange]

/-! ### Texts -/

/-- A text spells a generation and a suffix: before its first dash stand digits, after at most one plus sign, and all that follows is the suffix. -/
def Spells (text : String) (generation : Nat) (suffix : String) : Prop :=
  ∃ front digits, text.toList = front ++ '-' :: suffix.toList ∧ '-' ∉ front ∧
    (front = digits ∨ front = '+' :: digits) ∧ digits ≠ [] ∧ (∀ c ∈ digits, c.isDigit = true) ∧ numeral digits = generation

theorem parse?_eq_some_iff :
    parse? text = some rev ↔ ∃ front, text.toList = front ++ '-' :: rev.suffix.toList ∧ '-' ∉ front ∧
      parseGeneration? front = some rev.generation := by
  have hread : ∀ {suffix : List Char} {found : Option Nat},
      (found.bind fun generation => ofParts? generation (String.ofList suffix)) = some rev ↔
        suffix = rev.suffix.toList ∧ found = some rev.generation := by
    intro suffix found
    simp only [Option.bind_eq_some_iff, ofParts?_eq_some_iff]
    constructor
    · rintro ⟨_, rfl, rfl, hsuffix⟩
      exact ⟨by rw [hsuffix, String.toList_ofList], rfl⟩
    · rintro ⟨rfl, rfl⟩
      exact ⟨_, rfl, rfl, String.ofList_toList.symm⟩
  have hfront : '-' ∉ text.toList.takeWhile (· ≠ '-') := by
    intro hmem
    simpa using List.mem_takeWhile_imp hmem
  constructor
  · intro h
    have hparts := List.takeWhile_append_dropWhile (p := fun c : Char => decide (c ≠ '-')) (l := text.toList)
    rw [parse?] at h
    split at h
    · cases h
    · rename_i first behind hdrop
      have hfirst : first = '-' := by
        have hhead := List.head?_dropWhile_not (fun c : Char => decide (c ≠ '-')) text.toList
        rw [hdrop] at hhead
        simpa using hhead
      obtain ⟨rfl, hgeneration⟩ := hread.mp h
      rw [hdrop, hfirst] at hparts
      exact ⟨_, hparts.symm, hfront, hgeneration⟩
  · rintro ⟨front, htext, hdash, hgeneration⟩
    have hpass : ∀ c ∈ front, decide (c ≠ '-') = true := fun c hc => decide_eq_true fun heq => hdash (heq ▸ hc)
    have hdrop : text.toList.dropWhile (· ≠ '-') = '-' :: rev.suffix.toList := by
      rw [htext, List.dropWhile_append_of_pos hpass]
      rfl
    have htake : text.toList.takeWhile (· ≠ '-') = front := by
      rw [htext, List.takeWhile_append_of_pos hpass, List.takeWhile_cons_of_neg (by simp), List.append_nil]
    rw [parse?]
    simp only [hdrop, htake]
    exact hread.mpr ⟨rfl, hgeneration⟩

theorem parse_ok_iff_parse? : parse text = .ok rev ↔ parse? text = some rev := by
  rw [parse]
  cases parse? text with
  | none => simp
  | some found => simp

/-- What is read is what is spelled, if the generation is a number of 64 bits. -/
theorem parse_ok_iff :
    parse text = .ok rev ↔ Spells text rev.generation rev.suffix ∧ rev.generation < generationBound := by
  simp only [parse_ok_iff_parse?, parse?_eq_some_iff, parseGeneration?_eq_some_iff, Spells]
  constructor
  · rintro ⟨front, htext, hdash, digits, hsign, hne, hdigits, hvalue, hrange⟩
    exact ⟨⟨front, digits, htext, hdash, hsign, hne, hdigits, hvalue⟩, hrange⟩
  · rintro ⟨⟨front, digits, htext, hdash, hsign, hne, hdigits, hvalue⟩, hrange⟩
    exact ⟨front, htext, hdash, digits, hsign, hne, hdigits, hvalue, hrange⟩

theorem parse_exists_iff :
    (∃ rev, parse text = .ok rev) ↔
      ∃ generation suffix, Spells text generation suffix ∧ 1 ≤ generation ∧ generation < generationBound ∧ suffix ≠ "" := by
  constructor
  · rintro ⟨rev, h⟩
    obtain ⟨hspells, hrange⟩ := parse_ok_iff.mp h
    exact ⟨rev.generation, rev.suffix, hspells, rev.generation_pos, hrange, rev.suffix_ne⟩
  · rintro ⟨generation, suffix, hspells, hpos, hrange, hne⟩
    exact ⟨⟨generation, suffix, hpos, hne⟩, parse_ok_iff.mpr ⟨hspells, hrange⟩⟩

/-! ### Where ids come from -/

/-- How an id can come about: from its parts or from a text, as the id of a revision made here, or from a JSON value. A generation is a number of 64 bits, so a parent of the greatest one has no child. -/
inductive Made : RevId → Prop where
  | parts {generation : Nat} {suffix : String} {rev : RevId} (hrange : generation < generationBound)
      (h : ofParts generation suffix = .ok rev) : Made rev
  | text {text : String} {rev : RevId} (h : parse text = .ok rev) : Made rev
  | derived (parent : Option RevId) (deleted : Bool) (body : Bytes) (attachments : List (String × Digest))
      (hrange : ∀ above, parent = some above → above.generation + 1 < generationBound) :
      Made (derive parent deleted body attachments)
  | json {document : String} {rev : RevId} (h : Json.read? ofTree? document = some rev) : Made rev

theorem ofParts_ok_iff {suffix : String} :
    ofParts generation suffix = .ok rev ↔ rev.generation = generation ∧ rev.suffix = suffix := by
  rw [ofParts, ← ofParts?_eq_some_iff]
  cases ofParts? generation suffix with
  | none => simp
  | some found => simp

theorem made_iff : Made rev ↔ rev.generation < generationBound := by
  constructor
  · intro h
    cases h with
    | parts hrange h => exact (ofParts_ok_iff.mp h).1 ▸ hrange
    | text h => exact (parse_ok_iff.mp h).2
    | derived parent deleted body attachments hrange =>
      cases parent with
      | none => exact Nat.one_lt_two_pow (by decide)
      | some above => exact hrange above rfl
    | json h =>
      obtain ⟨tree, -, htree⟩ := Option.bind_eq_some_iff.mp h
      obtain ⟨spelled, -, hparse⟩ := Option.bind_eq_some_iff.mp htree
      exact (parse_ok_iff.mp (parse_ok_iff_parse?.mpr hparse)).2
  · intro h
    exact .parts h (ofParts_ok_iff.mpr ⟨rfl, rfl⟩)

/-! ### The order of ids -/

instance : TransOrd RevId :=
  inferInstanceAs (TransCmp (compareLex (compareOn RevId.generation) (compareOn RevId.suffix)))

theorem text_inj : left.text = right.text ↔ left = right :=
  ⟨text_injective, fun h => by rw [h]⟩

theorem compare_eq_eq_iff : compare left right = .eq ↔ left.text = right.text := by
  rw [text_inj]
  change (compare left.generation right.generation).then (compare left.suffix right.suffix) = .eq ↔ _
  rw [Ordering.then_eq_eq, LawfulEqOrd.compare_eq_iff_eq, LawfulEqOrd.compare_eq_iff_eq]
  cases left
  cases right
  simp

theorem compare_eq_lt_iff :
    compare left right = .lt ↔ left.generation < right.generation ∨
      (left.generation = right.generation ∧ Utf8.encode left.suffix < Utf8.encode right.suffix) := by
  change (compare left.generation right.generation).then (compare left.suffix right.suffix) = .lt ↔ _
  rw [Ordering.then_eq_lt, Nat.compare_eq_lt, Nat.compare_eq_eq, Utf8.encode_lt_iff]
  exact or_congr Iff.rfl (and_congr Iff.rfl compareOfLessAndEq_eq_lt)

/-! ### Text and id -/

/-- A text is read as an id exactly if it spells one, every id is read back from its text, and texts tell ids apart as their comparison does, which is a total order. -/
theorem text_faithful :
    (∀ text, (∃ rev, parse text = .ok rev) ↔
      ∃ generation suffix, Spells text generation suffix ∧ 1 ≤ generation ∧ generation < generationBound ∧ suffix ≠ "") ∧
    (∀ text rev, parse text = .ok rev ↔ Spells text rev.generation rev.suffix ∧ rev.generation < generationBound) ∧
    (∀ rev, Made rev ↔ rev.generation < generationBound) ∧
    (∀ rev, Made rev → parse rev.text = .ok rev) ∧
    (∀ left right : RevId, left.text = right.text ↔ left = right) ∧
    (∀ left right : RevId, compare left right = .eq ↔ left.text = right.text) ∧
    TransOrd RevId ∧
    ∀ left right : RevId, compare left right = .lt ↔ left.generation < right.generation ∨
      (left.generation = right.generation ∧ Utf8.encode left.suffix < Utf8.encode right.suffix) :=
  ⟨fun _ => parse_exists_iff, fun _ _ => parse_ok_iff, fun _ => made_iff, fun _ hmade => parse_text (made_iff.mp hmade),
    fun _ _ => text_inj, fun _ _ => compare_eq_eq_iff, inferInstance, fun _ _ => compare_eq_lt_iff⟩

/-- The greatest generation, spelled with a sign and a leading zero, before a suffix that looks like an id. -/
theorem text_faithful_greatest :
    let greatest : RevId := ⟨18446744073709551615, "2-0", by decide, by decide⟩
    parse "+018446744073709551615-2-0" = .ok greatest ∧ greatest.text = "18446744073709551615-2-0" ∧ Made greatest ∧
      parse greatest.text = .ok greatest := by
  intro greatest
  have hread : parse "+018446744073709551615-2-0" = .ok greatest := by decide +kernel
  obtain ⟨-, -, -, hback, -⟩ := text_faithful
  exact ⟨hread, by decide +kernel, .text hread, hback greatest (.text hread)⟩

end RevId

end RevisionForest
