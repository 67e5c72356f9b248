import RevisionForest.Proofs.Shape
import RevisionForest.Proofs.Steps
/-!
# What a statement does

Each statement that succeeds makes one change that can be written down: a document is registered, a revision is pushed behind the others, winner flags are set anew (`reflag`), attachments are added. Callers know the statements only by these descriptions. Every such change keeps the shape of the tables.
-/

namespace RevisionForest

/-- The row that a revision is stored in. -/
def NewRevision.row (new : NewRevision) (sequence : Int) : RevisionRow :=
  ⟨sequence, new.document, new.parent, new.current, new.deleted, new.available, new.rev.text, new.body⟩

namespace Tables

/-! ### Changes -/

/-- The tables with one more document. -/
def register (tables : Tables) (doc : String) : Tables :=
  { tables with documents := tables.documents ++ [⟨tables.lastNumber + 1, doc⟩] }

/-- The tables with one more revision, the newest. -/
def push (tables : Tables) (new : NewRevision) : Tables :=
  { tables with revisions := tables.revisions ++ [new.row (tables.lastSequence + 1)] }

/-- The tables with other winner flags. -/
def reflag (tables : Tables) (flagged : RevisionRow → Bool) : Tables :=
  tables.mapRevisions fun row => { row with current := flagged row }

/-- The tables with more attachments of one revision. -/
def describe (tables : Tables) (sequence : Int) (attachments : List Attachment) : Tables :=
  { tables with attachments := tables.attachments ++ attachments.map (attachmentRow sequence) }

/-- A revision can be pushed: its parent is in its document, or it is a root of a document that exists. -/
def Accepts (tables : Tables) (new : NewRevision) : Prop :=
  (∀ parent, new.parent = some parent →
      ∃ row ∈ tables.revisions, row.sequence = parent ∧ row.document = new.document) ∧
    (new.parent = none → ∃ document ∈ tables.documents, document.number = new.document)

variable {tables tables' : Tables} {new : NewRevision}

theorem flag_eq_reflag (tables : Tables) (sequence : Int) (current : Bool) :
    tables.flag sequence current
      = tables.reflag fun row => if row.sequence = sequence then current else row.current := by
  unfold flag reflag
  congr 1
  funext row
  by_cases hsequence : row.sequence = sequence
  · simp [hsequence]
  · simp [hsequence]

theorem crown_eq_reflag (tables : Tables) (document sequence : Int) :
    tables.crown document sequence
      = tables.reflag fun row =>
          if row.sequence = sequence then true else if row.document = document then false else row.current := by
  unfold crown reflag
  congr 1
  funext row
  by_cases hsequence : row.sequence = sequence
  · simp [hsequence]
  · by_cases hdocument : row.document = document
    · simp [hsequence, hdocument]
    · simp [hsequence, hdocument]

theorem writeLocal_eq (tables : Tables) (row : LocalRow) :
    tables.writeLocal row = { tables with locals := (tables.writeLocal row).locals } := by
  unfold writeLocal
  split <;> rfl

theorem mem_push_iff {row : RevisionRow} :
    row ∈ (tables.push new).revisions ↔ row ∈ tables.revisions ∨ row = new.row (tables.lastSequence + 1) := by
  simp [push]

theorem mem_reflag_iff {row : RevisionRow} {flagged : RevisionRow → Bool} :
    row ∈ (tables.reflag flagged).revisions ↔
      ∃ old ∈ tables.revisions, { old with current := flagged old } = row := by
  simp [reflag, mapRevisions]

/-! ### Statements -/

theorem insertDocument_ok_iff {doc : String} {number : Int} :
    insertDocument doc tables = .ok number tables' ↔
      (isBlankId doc = false ∧ tables.documentNumber? doc = none) ∧
        tables.lastNumber + 1 = number ∧ tables.register doc = tables' := by
  simp only [insertDocument, ok_bind_iff, ok_get_iff]
  constructor
  · rintro ⟨_, _, ⟨rfl, rfl⟩, h⟩
    obtain ⟨hfree, h⟩ := ok_guard_iff.mp h
    obtain ⟨_, _, hset, hvalue⟩ := ok_bind_iff.mp h
    obtain ⟨rfl, rfl⟩ := ok_pure_iff.mp hvalue
    simp only [Bool.or_eq_true, not_or, Bool.not_eq_true, Option.isSome_eq_false_iff, Option.isNone_iff_eq_none]
      at hfree
    exact ⟨hfree, rfl, ok_set_iff.mp hset⟩
  · rintro ⟨hfree, rfl, rfl⟩
    refine ⟨_, _, ⟨rfl, rfl⟩, ok_guard_iff.mpr ⟨by simp [hfree], ?_⟩⟩
    exact ok_bind_iff.mpr ⟨⟨⟩, _, ok_set_iff.mpr rfl, rfl⟩

theorem insertDocument_refused {doc : String}
    (h : isBlankId doc = true ∨ (tables.documentNumber? doc).isSome = true) :
    insertDocument doc tables = .error (.collision doc) tables := by
  unfold insertDocument
  rw [bind_of_ok get_eq, if_pos (by simpa using h)]
  rfl

theorem isBlankId_eq_false_iff {doc : String} (hdoc : doc ≠ "") :
    isBlankId doc = false ↔ doc.toList.head? ≠ some (Char.ofNat 0) := by
  unfold isBlankId
  cases hchars : doc.toList with
  | nil => exact absurd (String.toList_eq_nil_iff.mp hchars) hdoc
  | cons first rest =>
    have hzero : first.toNat = 0 ↔ first = Char.ofNat 0 := by
      rw [← Char.toNat_inj]
      rfl
    simp [hzero]

theorem insertRevision_ok_iff {insertion : Insertion} :
    insertRevision new tables = .ok insertion tables' ↔
      (∃ sequence, tables.sequenceOf? new.document new.rev = some sequence ∧
        Insertion.existing sequence = insertion ∧ tables = tables') ∨
      ((tables.sequenceOf? new.document new.rev = none ∧ tables.refusal? new = none) ∧
        Insertion.inserted (tables.lastSequence + 1) = insertion ∧ tables.push new = tables') := by
  unfold insertRevision
  rw [bind_of_ok get_eq]
  cases tables.sequenceOf? new.document new.rev with
  | some sequence => simp [ok_pure_iff]
  | none =>
    cases tables.refusal? new with
    | some error => simp [not_ok_throw]
    | none =>
      simp only [ok_bind_iff, ok_set_iff, ok_pure_iff]
      simp [push, NewRevision.row]

theorem Shape.refusal?_eq_none_iff (shape : tables.Shape) :
    tables.refusal? new = none ↔
      tables.Accepts new ∧ ∀ parent, new.parent = some parent → parent ∉ tables.barren := by
  unfold refusal? Accepts
  cases hparent : new.parent with
  | none =>
    have hhome : (tables.documentId? new.document).isNone = true ↔
        ¬∃ document ∈ tables.documents, document.number = new.document := by
      rw [Option.isNone_iff_eq_none, documentId?_eq_none_iff]
      simp
    by_cases h : ∃ document ∈ tables.documents, document.number = new.document
    · simp [hhome, h]
    · simp [hhome, h]
  | some parent =>
    have hhome : (tables.rowAt? parent).map (·.document) = some new.document ↔
        ∃ row ∈ tables.revisions, row.sequence = parent ∧ row.document = new.document := by
      simp only [Option.map_eq_some_iff, shape.rowAt?_eq_some_iff]
      constructor
      · rintro ⟨row, ⟨hmem, hsequence⟩, hdocument⟩
        exact ⟨row, hmem, hsequence, hdocument⟩
      · rintro ⟨row, hmem, hsequence, hdocument⟩
        exact ⟨row, ⟨hmem, hsequence⟩, hdocument⟩
    by_cases h : ∃ row ∈ tables.revisions, row.sequence = parent ∧ row.document = new.document
    · by_cases hbarren : parent ∈ tables.barren
      · simp [hhome, h, hbarren]
      · simp [hhome, h, hbarren]
    · simp [hhome, h]

theorem setCurrent_ok_iff {sequence : Int} {current : Bool} {done : Unit} :
    setCurrent sequence current tables = .ok done tables' ↔
      (∃ row ∈ tables.revisions, row.sequence = sequence) ∧ tables.flag sequence current = tables' := by
  have hmissing : (tables.rowAt? sequence).isNone = true ↔ ¬∃ row ∈ tables.revisions, row.sequence = sequence := by
    rw [Option.isNone_iff_eq_none, rowAt?_eq_none_iff]
    simp
  simp only [setCurrent, ok_bind_iff, ok_get_iff]
  constructor
  · rintro ⟨_, _, ⟨rfl, rfl⟩, h⟩
    obtain ⟨hthere, h⟩ := ok_guard_iff.mp h
    exact ⟨not_not.mp fun hnone => hthere (hmissing.mpr hnone), ok_set_iff.mp h⟩
  · rintro ⟨hthere, rfl⟩
    refine ⟨_, _, ⟨rfl, rfl⟩, ok_guard_iff.mpr ⟨fun hnone => hmissing.mp hnone hthere, ?_⟩⟩
    exact ok_set_iff.mpr rfl

theorem pickWinner_ok_iff {document : Int} {elected : Option Winner} :
    pickWinner document tables = .ok elected tables' ↔
      ∃ leaves, tables.leaves document = .ok leaves ∧
        ((Election.winner? leaves = none ∧ elected = none ∧ tables = tables') ∨
          ∃ leaf, Election.winner? leaves = some leaf ∧ elected = some leaf.winner ∧
            tables.crown document leaf.sequence = tables') := by
  constructor
  · intro h
    obtain ⟨leaves, _, hread, h⟩ := ok_bind_iff.mp h
    obtain ⟨hleaves, rfl⟩ := Statement.query_ok_iff.mp hread
    refine ⟨leaves, hleaves, ?_⟩
    cases hwinner : Election.winner? leaves with
    | none =>
      rw [hwinner] at h
      obtain ⟨rfl, rfl⟩ := ok_pure_iff.mp h
      exact .inl ⟨rfl, rfl, rfl⟩
    | some leaf =>
      rw [hwinner] at h
      obtain ⟨_, _, hcrown, h⟩ := ok_bind_iff.mp h
      obtain rfl := ok_modify_iff.mp hcrown
      obtain ⟨rfl, rfl⟩ := ok_pure_iff.mp h
      exact .inr ⟨leaf, rfl, rfl, rfl⟩
  · rintro ⟨leaves, hleaves, hcases⟩
    refine ok_bind_iff.mpr ⟨leaves, tables, Statement.query_ok_iff.mpr ⟨hleaves, rfl⟩, ?_⟩
    rcases hcases with ⟨hwinner, rfl, rfl⟩ | ⟨leaf, hwinner, rfl, rfl⟩
    · rw [hwinner]
      rfl
    · rw [hwinner]
      rfl

theorem insertAttachment_ok_iff {sequence : Int} {attachment : Attachment} {done : Unit} :
    insertAttachment sequence attachment tables = .ok done tables' ↔
      ((sequence, attachment.name) ∉ tables.attachments.map (fun row => (row.sequence, row.name)) ∧
        ∃ row ∈ tables.revisions, row.sequence = sequence) ∧
      tables.describe sequence [attachment] = tables' := by
  have hmissing : (tables.rowAt? sequence).isNone = true ↔ ¬∃ row ∈ tables.revisions, row.sequence = sequence := by
    rw [Option.isNone_iff_eq_none, rowAt?_eq_none_iff]
    simp
  have htaken : (tables.attachments.any fun row => row.sequence = sequence && row.name = attachment.name) = true ↔
      (sequence, attachment.name) ∈ tables.attachments.map (fun row => (row.sequence, row.name)) := by
    simp
  simp only [insertAttachment, ok_bind_iff, ok_get_iff]
  constructor
  · rintro ⟨_, _, ⟨rfl, rfl⟩, h⟩
    obtain ⟨hfree, h⟩ := ok_guard_iff.mp h
    obtain ⟨hthere, h⟩ := ok_guard_iff.mp h
    refine ⟨⟨fun hmem => hfree (htaken.mpr hmem), ?_⟩, ok_set_iff.mp h⟩
    exact not_not.mp fun hnone => hthere (hmissing.mpr hnone)
  · rintro ⟨⟨hfree, hthere⟩, rfl⟩
    refine ⟨_, _, ⟨rfl, rfl⟩, ok_guard_iff.mpr ⟨fun hmem => hfree (htaken.mp hmem), ?_⟩⟩
    exact ok_guard_iff.mpr ⟨fun hnone => hmissing.mp hnone hthere, ok_set_iff.mpr rfl⟩

theorem describe_describe (sequence : Int) (first rest : List Attachment) :
    (tables.describe sequence first).describe sequence rest = tables.describe sequence (first ++ rest) := by
  simp [describe]

theorem insertAttachments_ok {sequence : Int} {attachments : List Attachment} {done : Unit}
    (h : insertAttachments sequence attachments tables = .ok done tables') :
    tables.describe sequence attachments = tables' := by
  induction attachments generalizing tables with
  | nil =>
    obtain ⟨-, rfl⟩ := ok_pure_iff.mp h
    simp [describe]
  | cons attachment rest ih =>
    obtain ⟨_, between, hfirst, hrest⟩ := ok_bind_iff.mp h
    obtain ⟨-, rfl⟩ := insertAttachment_ok_iff.mp hfirst
    rw [← ih hrest, describe_describe]
    rfl

theorem copyAttachments_ok_iff {source target : Int} {skip : List String} {count : Nat} :
    copyAttachments source target skip tables = .ok count tables' ↔
      ∃ attachments, tables.attachmentsFor source = .ok attachments ∧
        insertAttachments target (attachments.filter fun attachment => !skip.contains attachment.name) tables
          = .ok () tables' ∧
        (attachments.filter fun attachment => !skip.contains attachment.name).length = count := by
  simp only [copyAttachments, ok_bind_iff, Statement.query_ok_iff, ok_pure_iff]
  constructor
  · rintro ⟨attachments, _, ⟨hread, rfl⟩, _, _, hinsert, hcount, rfl⟩
    exact ⟨attachments, hread, hinsert, hcount⟩
  · rintro ⟨attachments, hread, hinsert, hcount⟩
    exact ⟨attachments, _, ⟨hread, rfl⟩, _, _, hinsert, hcount, rfl⟩

/-! ### Keeping the shape -/

namespace Shape

theorem register {doc : String} (shape : tables.Shape) (hnamed : isBlankId doc = false)
    (hfree : tables.documentNumber? doc = none) : (tables.register doc).Shape where
  numbers := by
    simp only [Tables.register, List.map_append, List.map_cons, List.map_nil]
    apply List.Nodup.append shape.numbers (List.nodup_singleton _)
    intro number hmem hnew
    obtain ⟨document, hdocument, rfl⟩ := List.mem_map.mp hmem
    have hle := number_le_lastNumber hdocument
    rw [List.mem_singleton] at hnew
    omega
  ids := by
    simp only [Tables.register, List.map_append, List.map_cons, List.map_nil]
    apply List.Nodup.append shape.ids (List.nodup_singleton _)
    intro id hmem hnew
    obtain ⟨document, hdocument, rfl⟩ := List.mem_map.mp hmem
    exact documentNumber?_eq_none_iff.mp hfree document hdocument (List.mem_singleton.mp hnew)
  named := by
    intro document hdocument
    rcases List.mem_append.mp hdocument with hold | hnew
    · exact shape.named document hold
    · rw [List.mem_singleton.mp hnew]
      exact hnamed
  sequences := shape.sequences
  homes := by
    intro row hrow
    obtain ⟨document, hdocument, hnumber⟩ := shape.homes row hrow
    exact ⟨document, List.mem_append_left _ hdocument, hnumber⟩
  parents := shape.parents
  distinct := shape.distinct
  owners := shape.owners
  labels := shape.labels

theorem push (shape : tables.Shape) (haccepts : tables.Accepts new)
    (hfresh : tables.sequenceOf? new.document new.rev = none) : (tables.push new).Shape where
  numbers := shape.numbers
  ids := shape.ids
  named := shape.named
  sequences := by
    simp only [Tables.push, List.map_append, List.map_cons, List.map_nil, List.length_append,
      List.length_singleton, List.range_succ, shape.sequences, shape.lastSequence_eq, NewRevision.row]
  homes := by
    intro row hrow
    rcases mem_push_iff.mp hrow with hold | rfl
    · exact shape.homes row hold
    · cases hparent : new.parent with
      | none => exact haccepts.2 hparent
      | some parent =>
        obtain ⟨older, holder, -, hdocument⟩ := haccepts.1 parent hparent
        obtain ⟨document, hmem, hnumber⟩ := shape.homes older holder
        exact ⟨document, hmem, hnumber.trans hdocument⟩
  parents := by
    intro row hrow parent hparent
    rcases mem_push_iff.mp hrow with hold | rfl
    · obtain ⟨hlt, older, holder, hsequence, hdocument⟩ := shape.parents row hold parent hparent
      exact ⟨hlt, older, mem_push_iff.mpr (.inl holder), hsequence, hdocument⟩
    · obtain ⟨older, holder, rfl, hdocument⟩ := haccepts.1 parent hparent
      have hle := sequence_le_lastSequence holder
      refine ⟨?_, older, mem_push_iff.mpr (.inl holder), rfl, hdocument⟩
      simp only [NewRevision.row]
      omega
  distinct := by
    simp only [Tables.push, List.map_append, List.map_cons, List.map_nil]
    apply List.Nodup.append shape.distinct (List.nodup_singleton _)
    intro key hmem hnew
    obtain ⟨row, hrow, rfl⟩ := List.mem_map.mp hmem
    obtain ⟨hdocument, htext⟩ := Prod.mk.inj (List.mem_singleton.mp hnew)
    exact sequenceOf?_eq_none_iff.mp hfresh row hrow hdocument htext
  owners := by
    intro attachment hattachment
    obtain ⟨row, hrow, hsequence⟩ := shape.owners attachment hattachment
    exact ⟨row, mem_push_iff.mpr (.inl hrow), hsequence⟩
  labels := shape.labels

/-- Rows may change in all but their place, as long as no two of one document come to have the same id. -/
theorem mapRevisions (shape : tables.Shape) {change : RevisionRow → RevisionRow}
    (hsequence : ∀ row, (change row).sequence = row.sequence) (hdocument : ∀ row, (change row).document = row.document)
    (hparent : ∀ row, (change row).parent = row.parent)
    (hdistinct : ((tables.mapRevisions change).revisions.map fun row => (row.document, row.revText)).Nodup) :
    (tables.mapRevisions change).Shape where
  numbers := shape.numbers
  ids := shape.ids
  named := shape.named
  sequences := by
    simpa only [Tables.mapRevisions, List.map_map, List.length_map, Function.comp_def, hsequence] using shape.sequences
  homes := by
    intro row hrow
    obtain ⟨old, hold, rfl⟩ := List.mem_map.mp hrow
    rw [hdocument]
    exact shape.homes old hold
  parents := by
    intro row hrow parent hnamed
    obtain ⟨old, hold, rfl⟩ := List.mem_map.mp hrow
    obtain ⟨hlt, older, holder, hat, hhome⟩ := shape.parents old hold parent ((hparent old).symm.trans hnamed)
    rw [hsequence, hdocument]
    exact ⟨hlt, _, List.mem_map_of_mem holder, (hsequence older).trans hat, (hdocument older).trans hhome⟩
  distinct := hdistinct
  owners := by
    intro attachment hattachment
    obtain ⟨row, hrow, hat⟩ := shape.owners attachment hattachment
    exact ⟨_, List.mem_map_of_mem hrow, (hsequence row).trans hat⟩
  labels := shape.labels

theorem reflag (shape : tables.Shape) (flagged : RevisionRow → Bool) : (tables.reflag flagged).Shape := by
  refine shape.mapRevisions (fun _ => rfl) (fun _ => rfl) (fun _ => rfl) ?_
  simpa only [Tables.mapRevisions, List.map_map, Function.comp_def] using shape.distinct

theorem insertAttachment {sequence : Int} {attachment : Attachment} {done : Unit} (shape : tables.Shape)
    (h : Tables.insertAttachment sequence attachment tables = .ok done tables') : tables'.Shape := by
  obtain ⟨⟨hfree, hthere⟩, rfl⟩ := insertAttachment_ok_iff.mp h
  exact
    { numbers := shape.numbers
      ids := shape.ids
      named := shape.named
      sequences := shape.sequences
      homes := shape.homes
      parents := shape.parents
      distinct := shape.distinct
      owners := by
        intro row hrow
        rcases List.mem_append.mp hrow with hold | hnew
        · exact shape.owners row hold
        · rw [List.map_singleton, List.mem_singleton] at hnew
          rw [hnew]
          exact hthere
      labels := by
        simp only [describe, List.map_append, List.map_cons, List.map_nil]
        apply List.Nodup.append shape.labels (List.nodup_singleton _)
        intro key hmem hnew
        rw [List.mem_singleton.mp hnew] at hmem
        exact hfree hmem }

theorem insertAttachments {sequence : Int} {attachments : List Attachment} {done : Unit} (shape : tables.Shape)
    (h : Tables.insertAttachments sequence attachments tables = .ok done tables') : tables'.Shape := by
  induction attachments generalizing tables with
  | nil =>
    obtain ⟨-, rfl⟩ := ok_pure_iff.mp h
    exact shape
  | cons attachment rest ih =>
    obtain ⟨_, between, hfirst, hrest⟩ := ok_bind_iff.mp h
    exact ih (shape.insertAttachment hfirst) hrest

end Shape

end Tables

end RevisionForest
