import RevisionForest.Utf8

/-!
# Revision ids

A revision id is a generation and a suffix, written `generation-suffix`. The generation counts the steps from the start of the history, the suffix tells revisions of one generation apart. Both parts are kept apart here; the text is what is stored, hashed and shown.
-/

namespace RevisionForest

structure RevId where
  generation : Nat
  suffix : String
  generation_pos : 0 < generation
  suffix_ne : suffix ≠ ""
  deriving DecidableEq

namespace RevId

/-- Generations are below this bound when they are read. -/
def generationBound : Nat := Nat.pow 2 64

def ofParts? (generation : Nat) (suffix : String) : Option RevId :=
  if h : 0 < generation ∧ suffix ≠ "" then some ⟨generation, suffix, h.1, h.2⟩ else none

def partsText (generation : Nat) (suffix : String) : String :=
  toString generation ++ "-" ++ suffix

def text (rev : RevId) : String :=
  partsText rev.generation rev.suffix

/-- What follows a plus sign, if there is one. -/
def dropPlus : List Char → List Char
  | '+' :: rest => rest
  | chars => chars

/-- The generation that some characters spell: decimal digits, of which zeros may lead, after at most one plus sign. -/
def parseGeneration? (chars : List Char) : Option Nat :=
  let digits := dropPlus chars
  if digits ≠ [] ∧ digits.all Char.isDigit then
    let generation := Nat.ofDigitChars 10 digits 0
    if generation < generationBound then some generation else none
  else
    none

/-- Read an id: everything up to the first dash is the generation, everything after it the suffix. -/
def parse? (text : String) : Option RevId :=
  let chars := text.toList
  match chars.dropWhile (· ≠ '-') with
  | [] => none
  | _ :: suffix => do
    let generation ← parseGeneration? (chars.takeWhile (· ≠ '-'))
    ofParts? generation (String.ofList suffix)

/-- Ids are ordered by generation, as a number, and then by suffix. -/
instance : Ord RevId where
  compare left right := (compare left.generation right.generation).then (compare left.suffix right.suffix)

theorem ofParts?_eq_some_iff {generation : Nat} {suffix : String} {rev : RevId} :
    ofParts? generation suffix = some rev ↔ rev.generation = generation ∧ rev.suffix = suffix := by
  cases rev with
  | mk revGeneration revSuffix hpos hne =>
    simp only [ofParts?]
    split
    · simp only [Option.some.injEq, RevId.mk.injEq]
      exact ⟨fun h => ⟨h.1.symm, h.2.symm⟩, fun h => ⟨h.1.symm, h.2.symm⟩⟩
    · rename_i hnot
      refine ⟨fun h => (Option.some_ne_none _ h.symm).elim, fun h => (hnot ?_).elim⟩
      exact ⟨h.1 ▸ hpos, h.2 ▸ hne⟩

/-! ### Reading back what is written -/

theorem toList_partsText (generation : Nat) (suffix : String) :
    (partsText generation suffix).toList = Nat.toDigits 10 generation ++ '-' :: suffix.toList := by
  simp [partsText, toString, Nat.repr]

theorem isDigit_of_mem_toDigits {generation : Nat} {c : Char} (h : c ∈ Nat.toDigits 10 generation) :
    c.isDigit = true :=
  Nat.isDigit_of_mem_toDigits (by decide) (by decide) h

theorem dropPlus_toDigits (generation : Nat) :
    dropPlus (Nat.toDigits 10 generation) = Nat.toDigits 10 generation := by
  unfold dropPlus
  split
  · rename_i rest heq
    have hplus : '+'.isDigit = true := isDigit_of_mem_toDigits (by rw [heq]; exact List.mem_cons_self)
    exact absurd hplus (by decide)
  · rfl

theorem parseGeneration?_toDigits {generation : Nat} (h : generation < generationBound) :
    parseGeneration? (Nat.toDigits 10 generation) = some generation := by
  have hall : (Nat.toDigits 10 generation).all Char.isDigit = true :=
    List.all_eq_true.mpr fun c hc => isDigit_of_mem_toDigits hc
  have hvalue : Nat.ofDigitChars 10 (Nat.toDigits 10 generation) 0 = generation :=
    Nat.ofDigitChars_toDigits (by decide) (by decide)
  simp only [parseGeneration?, dropPlus_toDigits]
  rw [if_pos ⟨Nat.toDigits_ne_nil, hall⟩, hvalue, if_pos h]

/-- The first dash of a text is the one after its generation, whatever the suffix holds. -/
theorem parse?_partsText {generation : Nat} (suffix : String) (h : generation < generationBound) :
    parse? (partsText generation suffix) = ofParts? generation suffix := by
  have hdash : ∀ c ∈ Nat.toDigits 10 generation, decide (c ≠ '-') = true := by
    intro c hc
    have hdigit := isDigit_of_mem_toDigits hc
    have hne : c ≠ '-' := by
      intro heq
      subst heq
      exact absurd hdigit (by decide)
    exact decide_eq_true hne
  have htake : (Nat.toDigits 10 generation ++ '-' :: suffix.toList).takeWhile (· ≠ '-')
      = Nat.toDigits 10 generation := by
    rw [List.takeWhile_append_of_pos hdash]
    simp
  have hdrop : (Nat.toDigits 10 generation ++ '-' :: suffix.toList).dropWhile (· ≠ '-')
      = '-' :: suffix.toList := by
    rw [List.dropWhile_append_of_pos hdash]
    simp
  simp only [parse?, toList_partsText]
  rw [hdrop, htake]
  simp only [parseGeneration?_toDigits h, String.ofList_toList]
  rfl

theorem parse?_text (rev : RevId) (h : rev.generation < generationBound) : parse? rev.text = some rev := by
  rw [text, parse?_partsText rev.suffix h]
  exact ofParts?_eq_some_iff.mpr ⟨rfl, rfl⟩

end RevId

end RevisionForest
