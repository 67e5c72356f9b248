import RevisionForest.Proofs.Edits
import RevisionForest.Proofs.Reading
/-!
# What cannot fail

Tables that are sound but for the flags of one document take every revision whose parent is there, hold an election and read every row. So an edit that has passed its own checks comes to its end. In particular a live leaf can always be buried (`Edit.bury_progress`).
-/

namespace RevisionForest

namespace Tables

variable {tables before after : Tables} {doc : String} {rev : RevId} {document sequence : Int} {row : RevisionRow}
  {new : NewRevision} {attachments : List Attachment}

/-! ### Statements -/

theorem insertAttachments_of_fresh (hthere : ∃ row ∈ tables.revisions, row.sequence = sequence)
    (hdistinct : (attachments.map (·.name)).Nodup)
    (hfresh : ∀ attachment ∈ attachments,
      (sequence, attachment.name) ∉ tables.attachments.map fun row => (row.sequence, row.name)) :
    insertAttachments sequence attachments tables = .ok () (tables.describe sequence attachments) := by
  induction attachments generalizing tables with
  | nil => simp [insertAttachments, describe, pure, EStateM.pure]
  | cons first rest ih =>
    have hinsert : insertAttachment sequence first tables = .ok () (tables.describe sequence [first]) :=
      insertAttachment_ok_iff.mpr ⟨⟨hfresh first List.mem_cons_self, hthere⟩, rfl⟩
    obtain ⟨hother, hrest⟩ := List.nodup_cons.mp hdistinct
    have hlater : ∀ attachment ∈ rest, (sequence, attachment.name) ∉
        (tables.describe sequence [first]).attachments.map fun row => (row.sequence, row.name) := by
      intro attachment hmem hlabel
      simp only [describe, List.map_append, List.mem_append] at hlabel
      rcases hlabel with hold | hnew
      · exact hfresh attachment (List.mem_cons_of_mem _ hmem) hold
      · simp only [List.map_cons, List.map_nil, attachmentRow, List.mem_singleton, Prod.mk.injEq, true_and] at hnew
        exact hother (List.mem_map.mpr ⟨attachment, hmem, hnew⟩)
    have hlast : insertAttachments sequence rest (tables.describe sequence [first])
        = .ok () ((tables.describe sequence [first]).describe sequence rest) := ih hthere hrest hlater
    rw [describe_describe] at hlast
    exact ok_bind_iff.mpr ⟨_, _, hinsert, hlast⟩

theorem Legible.pickWinner_ok (legible : tables.Legible) (document : Int) :
    ∃ elected crowned, pickWinner document tables = .ok elected crowned := by
  obtain ⟨leaves, hleaves⟩ := legible.leaves_ok document
  cases hwinner : Election.winner? leaves with
  | none => exact ⟨_, _, pickWinner_ok_iff.mpr ⟨leaves, hleaves, .inl ⟨hwinner, rfl, rfl⟩⟩⟩
  | some leaf => exact ⟨_, _, pickWinner_ok_iff.mpr ⟨leaves, hleaves, .inr ⟨leaf, hwinner, rfl, rfl⟩⟩⟩

theorem Legible.getBySequence_ok (legible : tables.Legible) (shape : tables.Shape) (hrow : row ∈ tables.revisions) :
    ∃ revision, tables.getBySequence row.sequence = .ok (some revision) := by
  have hat : tables.rowAt? row.sequence = some row := shape.rowAt?_eq_some_iff.mpr ⟨hrow, rfl⟩
  obtain ⟨⟨number, doc⟩, hhome, hnumber⟩ := shape.homes row hrow
  have hdoc : tables.documentId? row.document = some doc := shape.documentId?_eq_some_iff.mpr (hnumber ▸ hhome)
  obtain ⟨rev, hreads⟩ := legible.revisions row hrow
  obtain ⟨attachments, -, hread⟩ := legible.readRevision_ok hreads doc
  refine ⟨⟨doc, row.document, rev, row.sequence, row.parent, row.deleted, row.current, row.available, row.body,
    attachments⟩, ?_⟩
  simp only [getBySequence, hat, hdoc, hread]
  rfl

theorem accepts_of_parent (hrow : row ∈ tables.revisions) (hparent : new.parent = some row.sequence)
    (hdocument : row.document = new.document) : tables.Accepts new := by
  constructor
  · intro parent hsome
    rw [hparent] at hsome
    exact ⟨row, hrow, Option.some.inj hsome, hdocument⟩
  · intro hnone
    rw [hparent] at hnone
    nomatch hnone

theorem Sturdy.insertRevision_ok (sturdy : tables.Sturdy new.document) (haccepts : tables.Accepts new)
    (hrange : new.rev.generation < RevId.generationBound) :
    ∃ insertion inserted, Tables.insertRevision new tables = .ok insertion inserted ∧ inserted.Sturdy new.document ∧
      ∃ row ∈ inserted.revisions, row.sequence = insertion.sequence := by
  cases hfound : tables.sequenceOf? new.document new.rev with
  | some sequence =>
    obtain ⟨row, hrow, -, -, hsequence⟩ := sturdy.shape.sequenceOf?_eq_some_iff.mp hfound
    have hinsert : Tables.insertRevision new tables = .ok (.existing sequence) tables :=
      insertRevision_ok_iff.mpr (.inl ⟨sequence, hfound, rfl, rfl⟩)
    exact ⟨_, _, hinsert, sturdy, row, hrow, hsequence⟩
  | none =>
    have hrefusal : tables.refusal? new = none :=
      sturdy.shape.refusal?_eq_none_iff.mpr ⟨haccepts, fun _ _ => by simp [sturdy.fertile]⟩
    have hinsert : Tables.insertRevision new tables = .ok (.inserted (tables.lastSequence + 1)) (tables.push new) :=
      insertRevision_ok_iff.mpr (.inr ⟨⟨hfound, hrefusal⟩, rfl, rfl⟩)
    exact ⟨_, _, hinsert, sturdy.insertRevision hrange hinsert, new.row (tables.lastSequence + 1),
      mem_push_iff.mpr (.inr rfl), rfl⟩

theorem Sturdy.election_ok (sturdy : tables.Sturdy document) (hthere : ∃ row ∈ tables.revisions, row.sequence = sequence) :
    ∃ elected crowned revision, Tables.pickWinner document tables = .ok elected crowned ∧
      crowned.getBySequence sequence = .ok (some revision) := by
  obtain ⟨row, hrow, rfl⟩ := hthere
  obtain ⟨elected, crowned, hpick⟩ := sturdy.legible.pickWinner_ok document
  have hcrowned := sturdy.pickWinner hpick
  obtain ⟨kept, hkept, hbare⟩ := (pickWinner_gains hpick).extends.exists_row hrow
  obtain ⟨revision, hread⟩ := hcrowned.legible.getBySequence_ok hcrowned.shape hkept
  rw [(RevisionRow.bare_eq_iff.mp hbare).1] at hread
  exact ⟨elected, crowned, revision, hpick, hread⟩

theorem describe_progress (new : NewRevision) (sturdy : tables.Sturdy new.document) (haccepts : tables.Accepts new)
    (hfresh : tables.sequenceOf? new.document new.rev = none) (hrange : new.rev.generation < RevId.generationBound)
    (hdistinct : (attachments.map (·.name)).Nodup) :
    ∃ insertion inserted attached, insertRevision new tables = .ok insertion inserted ∧
      insertAttachments insertion.sequence attachments inserted = .ok () attached ∧ attached.Sturdy new.document ∧
      ∃ row ∈ attached.revisions, row.sequence = insertion.sequence := by
  obtain ⟨insertion, inserted, hinsert, hinserted, row, hrow, hsequence⟩ := sturdy.insertRevision_ok haccepts hrange
  have hnone : ∀ attachment ∈ attachments, (insertion.sequence, attachment.name) ∉
      inserted.attachments.map fun row => (row.sequence, row.name) := by
    intro attachment _ hlabel
    obtain ⟨described, hmem, heq⟩ := List.mem_map.mp hlabel
    have hlast : described.sequence = insertion.sequence := congrArg Prod.fst heq
    rcases insertRevision_ok_iff.mp hinsert with ⟨_, hfound, _, _⟩ | ⟨_, rfl, rfl⟩
    · rw [hfresh] at hfound
      nomatch hfound
    · obtain ⟨owner, howner, hsame⟩ := sturdy.shape.owners described hmem
      have hle := sequence_le_lastSequence howner
      simp only [Insertion.sequence] at hlast
      omega
  have hattach := insertAttachments_of_fresh ⟨row, hrow, hsequence⟩ hdistinct hnone
  exact ⟨insertion, inserted, _, hinsert, hattach, hinserted.insertAttachments hattach, row, hrow, hsequence⟩

/-- A new row can be inserted, described, made part of an election, and read. -/
theorem insert_progress (new : NewRevision) (sturdy : tables.Sturdy new.document) (haccepts : tables.Accepts new)
    (hfresh : tables.sequenceOf? new.document new.rev = none) (hrange : new.rev.generation < RevId.generationBound)
    (hdistinct : (attachments.map (·.name)).Nodup) :
    ∃ insertion inserted attached elected crowned revision,
      insertRevision new tables = .ok insertion inserted ∧
      insertAttachments insertion.sequence attachments inserted = .ok () attached ∧
      pickWinner new.document attached = .ok elected crowned ∧
      crowned.getBySequence insertion.sequence = .ok (some revision) := by
  obtain ⟨insertion, inserted, attached, hinsert, hattach, hattached, hthere⟩ :=
    describe_progress new sturdy haccepts hfresh hrange hdistinct
  obtain ⟨elected, crowned, revision, hpick, hread⟩ := hattached.election_ok hthere
  exact ⟨insertion, inserted, attached, elected, crowned, revision, hinsert, hattach, hpick, hread⟩

/-! ### Live leaves -/

/-- The row of a revision that is a live leaf of its document. -/
structure LiveLeaf (tables : Tables) (doc : String) (rev : RevId) (row : RevisionRow) : Prop where
  number : tables.documentNumber? doc = some row.document
  leaf : row ∈ tables.leafRows row.document
  text : row.revText = rev.text
  live : row.deleted = false

theorem LiveLeaf.sequenceOf? (h : tables.LiveLeaf doc rev row) (shape : tables.Shape) :
    tables.sequenceOf? row.document rev = some row.sequence :=
  shape.sequenceOf?_eq_some_iff.mpr ⟨row, (mem_leafRows_iff.mp h.leaf).1, rfl, h.text, rfl⟩

theorem LiveLeaf.place? (h : tables.LiveLeaf doc rev row) (shape : tables.Shape) :
    tables.place? doc rev = some row.sequence :=
  place?_eq_some_iff.mpr ⟨row.document, h.number, h.sequenceOf? shape⟩

theorem LiveLeaf.of_gains {described : List AttachmentRow} (h : before.LiveLeaf doc rev row)
    (hgains : before.Gains after [] described) : ∃ kept, after.LiveLeaf doc rev kept := by
  obtain ⟨hrow, -, hleaf⟩ := mem_leafRows_iff.mp h.leaf
  obtain ⟨kept, hkept, hbare⟩ := hgains.extends.exists_row hrow
  obtain ⟨hsequence, hdocument, -, hdeleted, -, htext, -⟩ := RevisionRow.bare_eq_iff.mp hbare
  have hbones : after.bones = before.bones := hgains.bones.trans (List.append_nil _)
  refine ⟨kept, ?_, mem_leafRows_iff.mpr ⟨hkept, rfl, ?_⟩, htext.trans h.text, hdeleted.trans h.live⟩
  · rw [hdocument]
    exact hgains.extends.documentNumber? h.number
  · rw [hsequence, isLeaf_of_bones hbones]
    exact hleaf

end Tables

open Tables

theorem Edit.bury_progress {draft : Draft} {doc : String} {rev : RevId} {row : RevisionRow} (healthy : draft.tables.Healthy)
    (hleaf : draft.tables.LiveLeaf doc rev row) (hrange : rev.generation + 1 < RevId.generationBound) :
    ∃ revision draft', Edit.bury doc rev draft = .ok revision draft' := by
  obtain ⟨hrow, -, hchildless⟩ := mem_leafRows_iff.mp hleaf.leaf
  obtain ⟨target, htarget, hplace⟩ := healthy.getRevision_ok hleaf.number (hleaf.sequenceOf? healthy.shape)
  obtain ⟨found, hfound, -, -, hread⟩ := getRevision_ok_some hleaf.number htarget
  obtain ⟨_, _, _, _, rfl⟩ := readRevision_ok_iff.mp hread
  obtain rfl := healthy.shape.eq_of_sequence hfound hrow hplace
  obtain ⟨leaves, -, hprev⟩ := (healthy.crowned found.document).currentWinner healthy.shape
  let tombstone : NewRevision := ⟨found.document, RevId.derive (some rev) true Body.empty [], some found.sequence, true,
    found.current, true, Body.empty⟩
  cases hcurrent : found.current with
  | true =>
    have hlower : setCurrent found.sequence false draft.tables = .ok () (draft.tables.flag found.sequence false) :=
      setCurrent_ok_iff.mpr ⟨⟨found, hrow, rfl⟩, rfl⟩
    have hlowered := (healthy.sturdy found.document).setCurrent
      (fun other hother heq => healthy.shape.eq_of_sequence hother hrow heq ▸ rfl) hlower
    obtain ⟨kept, hkept, hbare⟩ := (setCurrent_gains hlower).extends.exists_row hrow
    obtain ⟨hsequence, hdocument, -⟩ := RevisionRow.bare_eq_iff.mp hbare
    have haccepts : (draft.tables.flag found.sequence false).Accepts tombstone :=
      accepts_of_parent hkept (congrArg some hsequence.symm) hdocument
    obtain ⟨insertion, inserted, hinsert, hinserted, hthere⟩ := Sturdy.insertRevision_ok hlowered haccepts hrange
    obtain ⟨elected, crowned, revision, hpick, hrevision⟩ := hinserted.election_ok hthere
    exact ⟨revision, _, bury_ok_iff.mpr ⟨found.document, _, _, ⟨hleaf.number, htarget, hleaf.live, hchildless, hprev⟩,
      insertion, inserted, elected, crowned, .inl ⟨hcurrent, _, hlower, hinsert, hpick⟩, hrevision, rfl⟩⟩
  | false =>
    have haccepts : draft.tables.Accepts tombstone := accepts_of_parent hrow rfl rfl
    obtain ⟨insertion, inserted, hinsert, hinserted, row, hmem, hsequence⟩ :=
      Sturdy.insertRevision_ok (healthy.sturdy found.document) haccepts hrange
    obtain ⟨revision, hrevision⟩ := hinserted.legible.getBySequence_ok hinserted.shape hmem
    rw [hsequence] at hrevision
    exact ⟨revision, _, bury_ok_iff.mpr ⟨found.document, _, _, ⟨hleaf.number, htarget, hleaf.live, hchildless, hprev⟩,
      insertion, inserted, _, inserted, .inr ⟨hcurrent, hinsert, rfl, rfl⟩, hrevision, rfl⟩⟩

end RevisionForest
