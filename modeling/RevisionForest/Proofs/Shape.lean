import RevisionForest.Tables.Statement
import Mathlib.Tactic.Common
import Mathlib.Data.List.Nodup
/-!
# The shape of the tables

What the tables keep to whatever is written: documents have different numbers and ids, revisions are numbered from one upward without a gap, each belongs to a document and stands above its parent in the same document, and no document has two revisions of one id (`Tables.Shape`). The parent of a row is an older row, so every ancestry ends, and below every revision there is a leaf (`Shape.exists_leaf`). Under these rules a lookup finds a row exactly if there is one, and the row it finds is the only one.
-/

namespace RevisionForest

theorem find?_eq_some_of_unique {α : Type} {list : List α} {test : α → Bool} {found : α} (hmem : found ∈ list)
    (htest : test found = true) (hunique : ∀ other ∈ list, test other = true → other = found) :
    list.find? test = some found := by
  cases h : list.find? test with
  | none => exact absurd htest (by simpa using List.find?_eq_none.mp h found hmem)
  | some other => rw [hunique other (List.mem_of_find?_eq_some h) (List.find?_some h)]

theorem le_foldl_max {α : Type} (value : α → Int) (list : List α) (start : Int) :
    start ≤ list.foldl (fun greatest row => max greatest (value row)) start ∧
      ∀ row ∈ list, value row ≤ list.foldl (fun greatest row => max greatest (value row)) start := by
  induction list generalizing start with
  | nil => exact ⟨Int.le_refl start, fun row hrow => absurd hrow List.not_mem_nil⟩
  | cons first rest ih =>
    obtain ⟨hstart, hrest⟩ := ih (max start (value first))
    refine ⟨by rw [List.foldl_cons]; omega, fun row hrow => ?_⟩
    rw [List.foldl_cons]
    rcases List.mem_cons.mp hrow with rfl | hrow
    · omega
    · exact hrest row hrow

namespace Tables

structure Shape (tables : Tables) : Prop where
  numbers : (tables.documents.map (·.number)).Nodup
  ids : (tables.documents.map (·.id)).Nodup
  named : ∀ document ∈ tables.documents, isBlankId document.id = false
  sequences : tables.revisions.map (·.sequence) = (List.range tables.revisions.length).map fun i : Nat => (i : Int) + 1
  homes : ∀ row ∈ tables.revisions, ∃ document ∈ tables.documents, document.number = row.document
  parents : ∀ row ∈ tables.revisions, ∀ parent, row.parent = some parent →
    parent < row.sequence ∧ ∃ older ∈ tables.revisions, older.sequence = parent ∧ older.document = row.document
  distinct : (tables.revisions.map fun row => (row.document, row.revText)).Nodup
  owners : ∀ attachment ∈ tables.attachments, ∃ row ∈ tables.revisions, row.sequence = attachment.sequence
  labels : (tables.attachments.map fun attachment => (attachment.sequence, attachment.name)).Nodup

theorem shape_empty : Shape {} where
  numbers := List.nodup_nil
  ids := List.nodup_nil
  named := fun _ hmem => absurd hmem List.not_mem_nil
  sequences := rfl
  homes := fun _ hmem => absurd hmem List.not_mem_nil
  parents := fun _ hmem => absurd hmem List.not_mem_nil
  distinct := List.nodup_nil
  owners := fun _ hmem => absurd hmem List.not_mem_nil
  labels := List.nodup_nil

/-- The part of the shape that makes the revisions a forest: no two have the same sequence, and a parent is an older revision of the same document. -/
structure Rooted (tables : Tables) : Prop where
  keyed : (tables.revisions.map (·.sequence)).Nodup
  parents : ∀ row ∈ tables.revisions, ∀ parent, row.parent = some parent →
    parent < row.sequence ∧ ∃ older ∈ tables.revisions, older.sequence = parent ∧ older.document = row.document

variable {tables : Tables}

theorem Rooted.eq_of_sequence {row other : RevisionRow} (rooted : tables.Rooted) (h : row ∈ tables.revisions)
    (hother : other ∈ tables.revisions) (heq : row.sequence = other.sequence) : row = other :=
  List.inj_on_of_nodup_map rooted.keyed h hother heq

/-! ### Greatest numbers -/

theorem number_le_lastNumber {document : DocumentRow} (h : document ∈ tables.documents) :
    document.number ≤ tables.lastNumber :=
  (le_foldl_max (·.number) tables.documents 0).2 document h

theorem sequence_le_lastSequence {row : RevisionRow} (h : row ∈ tables.revisions) :
    row.sequence ≤ tables.lastSequence :=
  (le_foldl_max (·.sequence) tables.revisions 0).2 row h

namespace Shape

variable {row other : RevisionRow} {document : Int} {doc : String} {rev : RevId} {sequence : Int}

theorem ascending (shape : tables.Shape) :
    tables.revisions.Pairwise fun older newer => older.sequence < newer.sequence := by
  have hnumbers : (tables.revisions.map (·.sequence)).Pairwise (· < ·) := by
    rw [shape.sequences, List.pairwise_map]
    exact List.pairwise_lt_range.imp fun h => by omega
  exact List.pairwise_map.mp hnumbers

theorem sequence_bounds (shape : tables.Shape) (h : row ∈ tables.revisions) :
    0 < row.sequence ∧ row.sequence ≤ tables.revisions.length := by
  have hmem : row.sequence ∈ tables.revisions.map (·.sequence) := List.mem_map_of_mem h
  rw [shape.sequences] at hmem
  obtain ⟨i, hi, heq⟩ := List.mem_map.mp hmem
  rw [List.mem_range] at hi
  omega

theorem lastSequence_eq (shape : tables.Shape) : tables.lastSequence = tables.revisions.length := by
  have hfold : tables.lastSequence
      = ((List.range tables.revisions.length).map fun i : Nat => (i : Int) + 1).foldl max 0 := by
    rw [← shape.sequences, List.foldl_map]
    rfl
  rw [hfold]
  generalize tables.revisions.length = count
  induction count with
  | zero => rfl
  | succ count ih =>
    rw [List.range_succ, List.map_append, List.foldl_append, ih]
    simp only [List.map_cons, List.map_nil, List.foldl_cons, List.foldl_nil]
    omega

theorem exists_row_at (shape : tables.Shape) (hpos : 0 < sequence) (hle : sequence ≤ tables.lastSequence) :
    ∃ row ∈ tables.revisions, row.sequence = sequence := by
  rw [shape.lastSequence_eq] at hle
  have hmem : sequence ∈ tables.revisions.map (·.sequence) := by
    rw [shape.sequences]
    exact List.mem_map.mpr ⟨(sequence - 1).toNat, List.mem_range.mpr (by omega), by omega⟩
  exact List.mem_map.mp hmem

theorem nodup (shape : tables.Shape) : tables.revisions.Nodup :=
  shape.ascending.imp fun hlt heq => absurd (heq ▸ hlt) (Int.lt_irrefl _)

theorem rooted (shape : tables.Shape) : tables.Rooted :=
  ⟨List.pairwise_map.mpr (shape.ascending.imp fun hlt => Int.ne_of_lt hlt), shape.parents⟩

theorem eq_of_sequence (shape : tables.Shape) (h : row ∈ tables.revisions) (hother : other ∈ tables.revisions)
    (heq : row.sequence = other.sequence) : row = other :=
  shape.rooted.eq_of_sequence h hother heq

theorem eq_of_revText (shape : tables.Shape) (h : row ∈ tables.revisions) (hother : other ∈ tables.revisions)
    (hdocument : row.document = other.document) (htext : row.revText = other.revText) : row = other :=
  List.inj_on_of_nodup_map shape.distinct h hother (Prod.ext hdocument htext)

/-! ### Lookups -/

theorem rowAt?_eq_some_iff (shape : tables.Shape) :
    tables.rowAt? sequence = some row ↔ row ∈ tables.revisions ∧ row.sequence = sequence := by
  constructor
  · intro h
    exact ⟨List.mem_of_find?_eq_some h, by simpa using List.find?_some h⟩
  · rintro ⟨hmem, rfl⟩
    refine find?_eq_some_of_unique hmem (by simp) fun other hother heq => ?_
    exact shape.eq_of_sequence hother hmem (by simpa using heq)

theorem rowOf?_eq_some_iff (shape : tables.Shape) :
    tables.rowOf? document rev = some row ↔
      row ∈ tables.revisions ∧ row.document = document ∧ row.revText = rev.text := by
  constructor
  · intro h
    have htest := List.find?_some h
    simp only [Bool.and_eq_true, decide_eq_true_eq] at htest
    exact ⟨List.mem_of_find?_eq_some h, htest⟩
  · rintro ⟨hmem, rfl, htext⟩
    refine find?_eq_some_of_unique hmem (by simp [htext]) fun other hother heq => ?_
    simp only [Bool.and_eq_true, decide_eq_true_eq] at heq
    exact shape.eq_of_revText hother hmem heq.1 (heq.2.trans htext.symm)

theorem sequenceOf?_eq_some_iff (shape : tables.Shape) :
    tables.sequenceOf? document rev = some sequence ↔
      ∃ row ∈ tables.revisions, row.document = document ∧ row.revText = rev.text ∧ row.sequence = sequence := by
  simp only [sequenceOf?, Option.map_eq_some_iff, shape.rowOf?_eq_some_iff]
  constructor
  · rintro ⟨row, ⟨hmem, hdocument, htext⟩, hsequence⟩
    exact ⟨row, hmem, hdocument, htext, hsequence⟩
  · rintro ⟨row, hmem, hdocument, htext, hsequence⟩
    exact ⟨row, ⟨hmem, hdocument, htext⟩, hsequence⟩

theorem documentNumber?_eq_some_iff (shape : tables.Shape) {number : Int} :
    tables.documentNumber? doc = some number ↔ ⟨number, doc⟩ ∈ tables.documents := by
  simp only [documentNumber?, Option.map_eq_some_iff]
  constructor
  · rintro ⟨⟨_, _⟩, hfind, rfl⟩
    have hid := List.find?_some hfind
    simp only [decide_eq_true_eq] at hid
    exact hid ▸ List.mem_of_find?_eq_some hfind
  · intro hmem
    refine ⟨⟨number, doc⟩, find?_eq_some_of_unique hmem (by simp) fun other hother heq => ?_, rfl⟩
    exact List.inj_on_of_nodup_map shape.ids hother hmem (by simpa using heq)

theorem documentId?_eq_some_iff (shape : tables.Shape) {number : Int} :
    tables.documentId? number = some doc ↔ ⟨number, doc⟩ ∈ tables.documents := by
  simp only [documentId?, Option.map_eq_some_iff]
  constructor
  · rintro ⟨⟨_, _⟩, hfind, rfl⟩
    have hnumber := List.find?_some hfind
    simp only [decide_eq_true_eq] at hnumber
    exact hnumber ▸ List.mem_of_find?_eq_some hfind
  · intro hmem
    refine ⟨⟨number, doc⟩, find?_eq_some_of_unique hmem (by simp) fun other hother heq => ?_, rfl⟩
    exact List.inj_on_of_nodup_map shape.numbers hother hmem (by simpa using heq)

end Shape

theorem documentNumber?_eq_none_iff {doc : String} :
    tables.documentNumber? doc = none ↔ ∀ document ∈ tables.documents, document.id ≠ doc := by
  simp [documentNumber?, List.find?_eq_none]

theorem documentId?_eq_none_iff {number : Int} :
    tables.documentId? number = none ↔ ∀ document ∈ tables.documents, document.number ≠ number := by
  simp [documentId?, List.find?_eq_none]

theorem sequenceOf?_eq_none_iff {document : Int} {rev : RevId} :
    tables.sequenceOf? document rev = none ↔
      ∀ row ∈ tables.revisions, row.document = document → row.revText ≠ rev.text := by
  simp [sequenceOf?, rowOf?, List.find?_eq_none]

theorem rowAt?_eq_none_iff {sequence : Int} :
    tables.rowAt? sequence = none ↔ ∀ row ∈ tables.revisions, row.sequence ≠ sequence := by
  simp [rowAt?, List.find?_eq_none]

/-! ### Leaves -/

theorem isLeaf_iff {sequence : Int} :
    tables.isLeaf sequence = true ↔ ∀ row ∈ tables.revisions, row.parent ≠ some sequence := by
  simp [isLeaf]

theorem mem_leafRows_iff {row : RevisionRow} {document : Int} :
    row ∈ tables.leafRows document ↔
      row ∈ tables.revisions ∧ row.document = document ∧ tables.isLeaf row.sequence = true := by
  simp [leafRows]

/-- The newest row below a revision has no child, since a child would be newer. -/
theorem Rooted.exists_leaf {row : RevisionRow} (rooted : tables.Rooted) (h : row ∈ tables.revisions) :
    ∃ leaf ∈ tables.leafRows row.document, row.sequence ≤ leaf.sequence := by
  obtain ⟨distance, hdistance⟩ : ∃ distance, distance = (tables.lastSequence - row.sequence).toNat := ⟨_, rfl⟩
  induction distance using Nat.strongRecOn generalizing row with
  | ind distance ih =>
    cases hleaf : tables.isLeaf row.sequence with
    | true => exact ⟨row, mem_leafRows_iff.mpr ⟨h, rfl, hleaf⟩, Int.le_refl _⟩
    | false =>
      have hchild : ¬∀ child ∈ tables.revisions, child.parent ≠ some row.sequence := by
        rw [← isLeaf_iff, hleaf]
        decide
      push Not at hchild
      obtain ⟨child, hmem, hparent⟩ := hchild
      obtain ⟨hlt, older, holder, hsequence, hdocument⟩ := rooted.parents child hmem row.sequence hparent
      obtain rfl := rooted.eq_of_sequence holder h hsequence
      have hle := sequence_le_lastSequence hmem
      obtain ⟨leaf, hleaf, hbelow⟩ := ih _ (by omega) hmem rfl
      rw [hdocument]
      exact ⟨leaf, hleaf, by omega⟩

theorem Shape.exists_leaf {row : RevisionRow} (shape : tables.Shape) (h : row ∈ tables.revisions) :
    ∃ leaf ∈ tables.leafRows row.document, row.sequence ≤ leaf.sequence :=
  shape.rooted.exists_leaf h

theorem Shape.leafRows_eq_nil_iff (shape : tables.Shape) {document : Int} :
    tables.leafRows document = [] ↔ ∀ row ∈ tables.revisions, row.document ≠ document := by
  constructor
  · rintro hnil row hrow rfl
    obtain ⟨leaf, hleaf, _⟩ := shape.exists_leaf hrow
    exact absurd (hnil ▸ hleaf) List.not_mem_nil
  · intro hnone
    apply List.eq_nil_iff_forall_not_mem.mpr
    intro row hrow
    obtain ⟨hmem, hdocument, _⟩ := mem_leafRows_iff.mp hrow
    exact hnone row hmem hdocument

end Tables

end RevisionForest
