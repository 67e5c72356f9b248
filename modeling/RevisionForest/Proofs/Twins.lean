import RevisionForest.Proofs.SideBySide
import RevisionForest.Proofs.Sowing
/-!
# Documents under other numbers

Two stores can hold the same document under different numbers, since the number of a document and the sequences of its revisions are given out as they come, to other documents too. A renaming says which numbers stand for each other (`Renaming`). Tables are twins as to a document if what they hold of it is the same up to a renaming that keeps the order of the sequences (`Tables.Twin`).

No query about a document looks at the rows of another one, so twins answer alike, up to the renaming.
-/

namespace RevisionForest

/-- Which document numbers, and which sequences, of two stores stand for each other. -/
structure Renaming where
  number : Int → Int → Prop
  sequence : Int → Int → Prop

/-- Sequences are renamed in their order, and there is one document. -/
structure Renaming.Ordered (names : Renaming) : Prop where
  number : ∀ {a a' b b'}, names.number a a' → names.number b b' → a = b ∧ a' = b'
  sequence : ∀ {a a' b b'}, names.sequence a a' → names.sequence b b' → (a < b ↔ a' < b')

theorem Renaming.Ordered.eq_iff {names : Renaming} (h : names.Ordered) {a a' b b' : Int} (hfirst : names.sequence a a')
    (hsecond : names.sequence b b') : a = b ↔ a' = b' := by
  have hlt := h.sequence hfirst hsecond
  have hgt := h.sequence hsecond hfirst
  omega

/-- A renaming with more pairs. -/
structure Renaming.Widens (names wide : Renaming) : Prop where
  number : ∀ n n', names.number n n' → wide.number n n'
  sequence : ∀ s s', names.sequence s s' → wide.sequence s s'

theorem Renaming.Widens.refl (names : Renaming) : names.Widens names :=
  ⟨fun _ _ => id, fun _ _ => id⟩

theorem Renaming.Widens.trans {names between wide : Renaming} (h : names.Widens between) (h' : between.Widens wide) :
    names.Widens wide :=
  ⟨fun n n' hpair => h'.number n n' (h.number n n' hpair), fun s s' hpair => h'.sequence s s' (h.sequence s s' hpair)⟩

/-! ### What is renamed -/

/-- A row under other numbers. -/
inductive RevisionRow.Renamed (names : Renaming) (row : RevisionRow) : RevisionRow → Prop
  | intro {document sequence : Int} {parent : Option Int} (hdocument : names.number row.document document)
      (hsequence : names.sequence row.sequence sequence) (hparent : Option.Rel names.sequence row.parent parent) :
      Renamed names row { row with document, sequence, parent }

/-- A revision under other numbers. -/
inductive Revision.Renamed (names : Renaming) (revision : Revision) : Revision → Prop
  | intro {number sequence : Int} {parent : Option Int} (hnumber : names.number revision.number number)
      (hsequence : names.sequence revision.sequence sequence) (hparent : Option.Rel names.sequence revision.parent parent) :
      Renamed names revision { revision with number, sequence, parent }

/-- A leaf under another sequence. -/
inductive Leaf.Renamed (names : Renaming) (leaf : Leaf) : Leaf → Prop
  | intro {sequence : Int} (hsequence : names.sequence leaf.sequence sequence) :
      Renamed names leaf { leaf with sequence }

/-- A winner under another sequence. -/
inductive Winner.Renamed (names : Renaming) (winner : Winner) : Winner → Prop
  | intro {sequence : Int} (hsequence : names.sequence winner.sequence sequence) :
      Renamed names winner { winner with sequence }

/-- An event of one document, its winners under other sequences. -/
inductive ChangeEvent.Renamed (doc : String) (names : Renaming) : ChangeEvent → ChangeEvent → Prop
  | intro {prev prev' new new' : Option Winner} (hprev : Option.Rel (Winner.Renamed names) prev prev')
      (hnew : Option.Rel (Winner.Renamed names) new new') : Renamed doc names ⟨doc, prev, new⟩ ⟨doc, prev', new'⟩

section Parts

variable {names : Renaming} {row row' : RevisionRow}

theorem RevisionRow.Renamed.document (h : row.Renamed names row') : names.number row.document row'.document := by
  obtain ⟨hdocument, -, -⟩ := h
  exact hdocument

theorem RevisionRow.Renamed.sequence (h : row.Renamed names row') : names.sequence row.sequence row'.sequence := by
  obtain ⟨-, hsequence, -⟩ := h
  exact hsequence

theorem RevisionRow.Renamed.parent (h : row.Renamed names row') : Option.Rel names.sequence row.parent row'.parent := by
  obtain ⟨-, -, hparent⟩ := h
  exact hparent

end Parts

/-- A description that belongs to another row. -/
def AttachmentRow.moved (row : AttachmentRow) (sequence : Int) : AttachmentRow :=
  { row with sequence }

section Widening

variable {names wide : Renaming} (h : names.Widens wide)

include h

theorem RevisionRow.Renamed.mono {row row' : RevisionRow} (hrow : row.Renamed names row') : row.Renamed wide row' := by
  obtain ⟨hdocument, hsequence, hparent⟩ := hrow
  exact ⟨h.number _ _ hdocument, h.sequence _ _ hsequence, optionRel_mono hparent h.sequence⟩

theorem Revision.Renamed.mono {revision revision' : Revision} (hrevision : revision.Renamed names revision') :
    revision.Renamed wide revision' := by
  obtain ⟨hnumber, hsequence, hparent⟩ := hrevision
  exact ⟨h.number _ _ hnumber, h.sequence _ _ hsequence, optionRel_mono hparent h.sequence⟩

theorem Winner.Renamed.mono {winner winner' : Winner} (hwinner : winner.Renamed names winner') :
    winner.Renamed wide winner' := by
  obtain ⟨hsequence⟩ := hwinner
  exact ⟨h.sequence _ _ hsequence⟩

theorem ChangeEvent.Renamed.mono {doc : String} {event event' : ChangeEvent} (hevent : event.Renamed doc names event') :
    event.Renamed doc wide event' := by
  obtain ⟨hprev, hnew⟩ := hevent
  exact ⟨optionRel_mono hprev fun _ _ => Winner.Renamed.mono h, optionRel_mono hnew fun _ _ => Winner.Renamed.mono h⟩

end Widening

namespace Tables

/-- The rows of a document. -/
def rowsOf (tables : Tables) (number : Int) : List RevisionRow :=
  tables.revisions.filter fun row => row.document = number

/-- Both tables hold the same of a document, up to the renaming. -/
structure Twin (doc : String) (names : Renaming) (tables tables' : Tables) : Prop where
  shape : tables.Shape
  shape' : tables'.Shape
  fertile : tables.barren = []
  fertile' : tables'.barren = []
  found : Option.Rel names.number (tables.documentNumber? doc) (tables'.documentNumber? doc)
  known : ∀ n n', names.number n n' → tables.documentNumber? doc = some n ∧ tables'.documentNumber? doc = some n'
  rows : ∀ n n', names.number n n' → List.Forall₂ (RevisionRow.Renamed names) (tables.rowsOf n) (tables'.rowsOf n')
  placed : ∀ s s', names.sequence s s' →
    ∃ row ∈ tables.revisions, ∃ row' ∈ tables'.revisions, row.Renamed names row' ∧ row.sequence = s ∧ row'.sequence = s'
  ordered : ∀ a a' b b', names.sequence a a' → names.sequence b b' → (a < b ↔ a' < b')
  described : ∀ s s', names.sequence s s' → tables'.described s' = (tables.described s).map (·.moved s')

variable {doc : String} {names : Renaming} {tables tables' : Tables} {n n' s s' : Int} {rev : RevId}
  {row row' : RevisionRow}

theorem find?_rowsOf (number : Int) (test : RevisionRow → Bool) :
    (tables.revisions.find? fun row => row.document = number && test row) = (tables.rowsOf number).find? test := by
  rw [rowsOf, List.find?_filter]
  simp only [Bool.decide_and, Bool.decide_eq_true]

theorem filter_rowsOf (number : Int) (test : RevisionRow → Bool) :
    (tables.revisions.filter fun row => row.document = number && test row) = (tables.rowsOf number).filter test := by
  rw [rowsOf, List.filter_filter]
  exact List.filter_congr fun row _ => Bool.and_comm ..

theorem mem_rowsOf_iff : row ∈ tables.rowsOf n ↔ row ∈ tables.revisions ∧ row.document = n := by
  rw [rowsOf, List.mem_filter, decide_eq_true_eq]

namespace Twin

theorem names_ordered (twin : Twin doc names tables tables') : names.Ordered where
  number := by
    intro a a' b b' hfirst hsecond
    obtain ⟨ha, ha'⟩ := twin.known _ _ hfirst
    obtain ⟨hb, hb'⟩ := twin.known _ _ hsecond
    exact ⟨Option.some.inj (ha.symm.trans hb), Option.some.inj (ha'.symm.trans hb')⟩
  sequence := fun hfirst hsecond => twin.ordered _ _ _ _ hfirst hsecond

/-! ### Rows -/

theorem rowOf?_rel (twin : Twin doc names tables tables') (hnumber : names.number n n') (rev : RevId) :
    Option.Rel (RevisionRow.Renamed names) (tables.rowOf? n rev) (tables'.rowOf? n' rev) := by
  rw [rowOf?, rowOf?, find?_rowsOf, find?_rowsOf]
  refine find?_rel (twin.rows _ _ hnumber) fun row row' hrow => ?_
  obtain ⟨-, -, -⟩ := hrow
  rfl

theorem sequenceOf?_rel (twin : Twin doc names tables tables') (hnumber : names.number n n') (rev : RevId) :
    Option.Rel names.sequence (tables.sequenceOf? n rev) (tables'.sequenceOf? n' rev) :=
  optionRel_map (twin.rowOf?_rel hnumber rev) fun _ _ => RevisionRow.Renamed.sequence

theorem rowAt?_rel (twin : Twin doc names tables tables') (hsequence : names.sequence s s') :
    ∃ row row', tables.rowAt? s = some row ∧ tables'.rowAt? s' = some row' ∧ row.Renamed names row' := by
  obtain ⟨row, hrow, row', hrow', hrenamed, rfl, rfl⟩ := twin.placed _ _ hsequence
  exact ⟨row, row', twin.shape.rowAt?_eq_some_iff.mpr ⟨hrow, rfl⟩, twin.shape'.rowAt?_eq_some_iff.mpr ⟨hrow', rfl⟩,
    hrenamed⟩

theorem parent_eq_iff (twin : Twin doc names tables tables') (hsequence : names.sequence s s')
    {parent parent' : Option Int} (hparent : Option.Rel names.sequence parent parent') :
    parent = some s ↔ parent' = some s' := by
  cases hparent with
  | some h => rw [Option.some.injEq, Option.some.injEq, twin.names_ordered.eq_iff h hsequence]
  | none => simp

end Twin

theorem Shape.isLeaf_eq_rowsOf (shape : tables.Shape) (hrow : row ∈ tables.revisions) :
    tables.isLeaf row.sequence = !(tables.rowsOf row.document).any fun child => child.parent = some row.sequence := by
  rw [Bool.eq_iff_iff, Bool.not_eq_true', List.any_eq_false, isLeaf_iff]
  simp only [mem_rowsOf_iff, decide_eq_true_eq]
  constructor
  · rintro hleaf child ⟨hchild, -⟩
    exact hleaf child hchild
  · intro hleaf child hchild hparent
    obtain ⟨-, older, holder, hsequence, hhome⟩ := shape.parents child hchild _ hparent
    obtain rfl := shape.eq_of_sequence holder hrow hsequence
    exact hleaf child ⟨hchild, hhome.symm⟩ hparent

namespace Twin

theorem isLeaf_eq (twin : Twin doc names tables tables') (hsequence : names.sequence s s') :
    tables.isLeaf s = tables'.isLeaf s' := by
  obtain ⟨row, hrow, row', hrow', hrenamed, rfl, rfl⟩ := twin.placed _ _ hsequence
  rw [twin.shape.isLeaf_eq_rowsOf hrow, twin.shape'.isLeaf_eq_rowsOf hrow']
  refine congrArg _ (any_eq_of_rel (twin.rows _ _ hrenamed.document) fun child child' hchild => ?_)
  exact decide_eq_decide.mpr (twin.parent_eq_iff hsequence hchild.parent)

theorem leafRows_rel (twin : Twin doc names tables tables') (hnumber : names.number n n') :
    List.Forall₂ (RevisionRow.Renamed names) (tables.leafRows n) (tables'.leafRows n') := by
  rw [leafRows, leafRows, filter_rowsOf, filter_rowsOf]
  exact filter_rel (twin.rows _ _ hnumber) fun _ _ hrow => twin.isLeaf_eq hrow.sequence

/-! ### Reads -/

theorem readLeaf_agree (hrow : row.Renamed names row') : Agree (Leaf.Renamed names) (readLeaf row) (readLeaf row') := by
  obtain ⟨-, hsequence, -⟩ := hrow
  refine (Agree.refl (readStored (RevId.parse row.revText))).bind fun rev rev' hrev => ?_
  obtain rfl := hrev
  exact .ok ⟨hsequence⟩

theorem leaves_agree (twin : Twin doc names tables tables') (hnumber : names.number n n') :
    Agree (List.Forall₂ (Leaf.Renamed names)) (tables.leaves n) (tables'.leaves n') :=
  mapM_agree (twin.leafRows_rel hnumber) fun _ _ => readLeaf_agree

theorem readWinner_agree (hrow : row.Renamed names row') :
    Agree (Winner.Renamed names) (readWinner row) (readWinner row') := by
  obtain ⟨-, hsequence, -⟩ := hrow
  refine (Agree.refl (readStored (RevId.parse row.revText))).bind fun rev rev' hrev => ?_
  obtain rfl := hrev
  exact .ok ⟨hsequence⟩

theorem currentWinner_agree (twin : Twin doc names tables tables') (hnumber : names.number n n') :
    Agree (Option.Rel (Winner.Renamed names)) (tables.currentWinner n) (tables'.currentWinner n') := by
  have hflagged : Option.Rel (RevisionRow.Renamed names) ((tables.rowsOf n).find? (·.current))
      ((tables'.rowsOf n').find? (·.current)) := by
    refine find?_rel (twin.rows _ _ hnumber) fun row row' hrow => ?_
    obtain ⟨-, -, -⟩ := hrow
    rfl
  unfold currentWinner
  rw [find?_rowsOf, find?_rowsOf]
  generalize (tables.rowsOf n).find? (·.current) = found at hflagged
  generalize (tables'.rowsOf n').find? (·.current) = found' at hflagged
  cases hflagged with
  | some hrow => exact (readWinner_agree hrow).map fun _ _ => .some
  | none => exact .ok .none

theorem attachmentsFor_eq (twin : Twin doc names tables tables') (hsequence : names.sequence s s') :
    tables'.attachmentsFor s' = tables.attachmentsFor s := by
  have hread : (fun row : AttachmentRow => readAttachment (row.moved s')) = readAttachment := rfl
  have hsorted : ((tables.described s).map (·.moved s')).mergeSort (fun left right => left.name ≤ right.name)
      = ((tables.described s).mergeSort fun left right => left.name ≤ right.name).map (·.moved s') :=
    (List.map_mergeSort (f := fun row : AttachmentRow => row.moved s') fun _ _ _ _ => rfl).symm
  show ((tables'.described s').mergeSort _).mapM readAttachment = ((tables.described s).mergeSort _).mapM readAttachment
  rw [twin.described _ _ hsequence, hsorted, List.mapM_map, Function.comp_def, hread]

theorem readRevision_agree (twin : Twin doc names tables tables') (hrow : row.Renamed names row') (doc' : String) :
    Agree (Revision.Renamed names) (tables.readRevision doc' row) (tables'.readRevision doc' row') := by
  obtain ⟨hdocument, hsequence, hparent⟩ := hrow
  unfold readRevision
  rw [twin.attachmentsFor_eq hsequence]
  refine (Agree.refl (tables.attachmentsFor row.sequence)).bind fun attachments attachments' hattachments => ?_
  obtain rfl := hattachments
  refine (Agree.refl (readStored (RevId.parse row.revText))).bind fun rev rev' hrev => ?_
  obtain rfl := hrev
  exact .ok ⟨hdocument, hsequence, hparent⟩

theorem select_agree (twin : Twin doc names tables tables') {condition condition' : RevisionRow → Bool}
    (hsame : ∀ row row', row.Renamed names row' → condition row = condition' row') :
    Agree (List.Forall₂ (Revision.Renamed names)) (tables.select doc condition) (tables'.select doc condition') := by
  have hfound := twin.found
  unfold select
  generalize tables.documentNumber? doc = number at hfound
  generalize tables'.documentNumber? doc = number' at hfound
  cases hfound with
  | none => exact .ok .nil
  | some hnumber =>
    simp only [filter_rowsOf]
    exact mapM_agree (filter_rel (twin.rows _ _ hnumber) hsame) fun _ _ hrow => twin.readRevision_agree hrow doc

theorem getRevision_agree (twin : Twin doc names tables tables') (rev : RevId) :
    Agree (Option.Rel (Revision.Renamed names)) (tables.getRevision doc rev) (tables'.getRevision doc rev) := by
  refine (twin.select_agree fun row row' hrow => ?_).bind fun _ _ hfound => .ok (head?_rel hfound)
  obtain ⟨-, -, -⟩ := hrow
  rfl

theorem currentRevision_agree (twin : Twin doc names tables tables') :
    Agree (Option.Rel (Revision.Renamed names)) (tables.currentRevision doc) (tables'.currentRevision doc) := by
  refine (twin.select_agree fun row row' hrow => ?_).bind fun _ _ hfound => .ok (head?_rel hfound)
  obtain ⟨-, -, -⟩ := hrow
  rfl

theorem leafRevisions_agree (twin : Twin doc names tables tables') :
    Agree (List.Forall₂ (Revision.Renamed names)) (tables.leafRevisions doc) (tables'.leafRevisions doc) :=
  twin.select_agree fun _ _ hrow => twin.isLeaf_eq hrow.sequence

theorem getBySequence_agree (twin : Twin doc names tables tables') (hsequence : names.sequence s s') :
    Agree (fun found found' => ∃ revision revision', found = some revision ∧ found' = some revision' ∧
      revision.Renamed names revision') (tables.getBySequence s) (tables'.getBySequence s') := by
  obtain ⟨row, row', hrow, hrow', hrenamed⟩ := twin.rowAt?_rel hsequence
  obtain ⟨hnumber, hnumber'⟩ := twin.known _ _ hrenamed.document
  have hid := twin.shape.documentId?_eq_some_iff.mpr (twin.shape.documentNumber?_eq_some_iff.mp hnumber)
  have hid' := twin.shape'.documentId?_eq_some_iff.mpr (twin.shape'.documentNumber?_eq_some_iff.mp hnumber')
  unfold getBySequence
  simp only [hrow, hrow', hid, hid']
  exact (twin.readRevision_agree hrenamed doc).map fun revision revision' hrevision =>
    ⟨revision, revision', rfl, rfl, hrevision⟩

end Twin

/-! ### Histories -/

theorem lineage_filter {keep : RevisionRow → Bool} {list : List RevisionRow}
    (hparents : ∀ row ∈ list, keep row → ∀ parent, row.parent = some parent → ∀ other ∈ list, other.sequence = parent →
      keep other) (hkeep : ∀ row ∈ list, row.sequence = s → keep row) :
    lineage s (list.filter keep) = lineage s list := by
  induction list generalizing s with
  | nil => rfl
  | cons row older ih =>
    have hrest := fun s => ih (s := s) fun other hother hkept parent hparent next hnext =>
      hparents other (List.mem_cons_of_mem _ hother) hkept parent hparent next (List.mem_cons_of_mem _ hnext)
    have holder := hrest s fun other hother => hkeep other (List.mem_cons_of_mem _ hother)
    by_cases hsequence : row.sequence = s
    · have hkept := hkeep row List.mem_cons_self hsequence
      rw [List.filter_cons_of_pos hkept, lineage, lineage, if_pos hsequence, if_pos hsequence]
      cases hparent : row.parent with
      | none => rfl
      | some parent =>
        have habove := hrest parent fun other hother =>
          hparents row List.mem_cons_self hkept parent hparent other (List.mem_cons_of_mem _ hother)
        simp only [habove]
    · rw [lineage, if_neg hsequence, ← holder, List.filter_cons]
      split
      · rw [lineage, if_neg hsequence]
      · rfl

theorem Shape.lineage_rowsOf (shape : tables.Shape) (hrow : row ∈ tables.revisions) :
    lineage row.sequence (tables.rowsOf row.document).reverse = lineage row.sequence tables.revisions.reverse := by
  rw [rowsOf, ← List.filter_reverse]
  refine lineage_filter (fun child hchild hhome parent hparent other hother hplace => ?_) fun other hother hplace => ?_
  · obtain ⟨-, older, holder, hsequence, hdocument⟩ := shape.parents child (List.mem_reverse.mp hchild) _ hparent
    obtain rfl := shape.eq_of_sequence holder (List.mem_reverse.mp hother) (hsequence.trans hplace.symm)
    exact decide_eq_true (hdocument.trans (of_decide_eq_true hhome))
  · obtain rfl := shape.eq_of_sequence (List.mem_reverse.mp hother) hrow hplace
    exact decide_eq_true rfl

theorem lineage_rel (ordered : names.Ordered) {list list' : List RevisionRow}
    (h : List.Forall₂ (RevisionRow.Renamed names) list list') (hsequence : names.sequence s s') :
    List.Forall₂ (RevisionRow.Renamed names) (lineage s list) (lineage s' list') := by
  induction h generalizing s s' with
  | nil => exact .nil
  | @cons row row' older older' hrow _ ih =>
    rw [lineage, lineage]
    by_cases hplace : row.sequence = s
    · rw [if_pos hplace, if_pos ((ordered.eq_iff hrow.sequence hsequence).mp hplace)]
      have hparent := hrow.parent
      generalize row.parent = parent at hparent
      generalize row'.parent = parent' at hparent
      cases hparent with
      | none => exact .cons hrow .nil
      | some habove => exact List.rel_append (ih habove) (.cons hrow .nil)
    · rw [if_neg hplace, if_neg fun h => hplace ((ordered.eq_iff hrow.sequence hsequence).mpr h)]
      exact ih hsequence

theorem Twin.revisionHistory_agree (twin : Twin doc names tables tables') (rev : RevId) :
    Agree Eq (tables.revisionHistory doc rev) (tables'.revisionHistory doc rev) := by
  have hfound := twin.found
  unfold revisionHistory
  generalize tables.documentNumber? doc = number at hfound
  generalize tables'.documentNumber? doc = number' at hfound
  cases hfound with
  | none => exact .error _
  | @some n n' hnumber =>
    have hplace := twin.sequenceOf?_rel hnumber rev
    simp only
    generalize tables.sequenceOf? n rev = sequence at hplace
    generalize tables'.sequenceOf? n' rev = sequence' at hplace
    cases hplace with
    | none => exact .error _
    | @some s s' hsequence =>
      obtain ⟨row, hrow, row', hrow', hrenamed, rfl, rfl⟩ := twin.placed _ _ hsequence
      simp only
      rw [← twin.shape.lineage_rowsOf hrow, ← twin.shape'.lineage_rowsOf hrow']
      have hrows := List.rel_reverse (twin.rows _ _ hrenamed.document)
      have hread : ∀ older older' : RevisionRow, older.Renamed names older' →
          Agree Eq (readStored (RevId.parse older.revText)) (readStored (RevId.parse older'.revText)) := by
        rintro older _ ⟨-, -, -⟩
        exact .refl _
      refine (mapM_agree (lineage_rel twin.names_ordered hrows hsequence) hread).mono fun revs revs' hrevs => ?_
      exact List.forall₂_eq_eq_eq.le revs revs' hrevs

end Tables

/-! ### Elections -/

theorem Leaf.Renamed.better {names : Renaming} {first first' second second' : Leaf} (h : first.Renamed names first')
    (h' : second.Renamed names second') : (Election.better first second).Renamed names (Election.better first' second') := by
  obtain ⟨hfirst⟩ := h
  obtain ⟨hsecond⟩ := h'
  unfold Election.better
  split
  · rename_i hrank
    rw [if_pos (by exact hrank)]
    exact ⟨hfirst⟩
  · rename_i hrank
    rw [if_neg (by exact hrank)]
    exact ⟨hsecond⟩

theorem Election.winner?_rel {names : Renaming} {leaves leaves' : List Leaf}
    (h : List.Forall₂ (Leaf.Renamed names) leaves leaves') :
    Option.Rel (Leaf.Renamed names) (Election.winner? leaves) (Election.winner? leaves') := by
  cases h with
  | nil => exact .none
  | cons hfirst hrest => exact .some (foldl_rel hrest hfirst fun _ _ _ _ => Leaf.Renamed.better)

end RevisionForest
