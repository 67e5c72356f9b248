import RevisionForest.Proofs.Crown
/-!
# How tables grow

Apart from the winner flags, rows are only ever added behind the others. `Tables.bones` is what is left of the revisions without their flags, and `Tables.Extends` says that documents and bones of one state stand in front of those of another. The tree of a document, its ids and its leaves can be seen in the bones.

In the middle of an edit the flags of the one document being edited are open; `Tables.Sturdy` is what holds then. The edit ends with an election, which makes the tables healthy again provided that every new id reads.
-/

namespace RevisionForest

/-- A row without its winner flag. -/
def RevisionRow.bare (row : RevisionRow) : RevisionRow :=
  { row with current := false }

theorem RevisionRow.bare_eq_iff {row other : RevisionRow} :
    row.bare = other.bare ↔ row.sequence = other.sequence ∧ row.document = other.document ∧
      row.parent = other.parent ∧ row.deleted = other.deleted ∧ row.available = other.available ∧
      row.revText = other.revText ∧ row.body = other.body := by
  simp [bare]

namespace Tables

def bones (tables : Tables) : List RevisionRow :=
  tables.revisions.map (·.bare)

/-- Nothing was taken away. -/
structure Extends (before after : Tables) : Prop where
  documents : before.documents <+: after.documents
  bones : before.bones <+: after.bones

/-- Rows were added, and flags may have changed. -/
structure Gains (before after : Tables) (rows : List RevisionRow) (attachments : List AttachmentRow) : Prop where
  documents : after.documents = before.documents
  bones : after.bones = before.bones ++ rows
  attachments : after.attachments = before.attachments ++ attachments

variable {tables tables' before between after : Tables} {new : NewRevision} {document : Int}

theorem Extends.refl (tables : Tables) : tables.Extends tables :=
  ⟨List.prefix_rfl, List.prefix_rfl⟩

theorem Extends.trans (h : before.Extends between) (h' : between.Extends after) : before.Extends after :=
  ⟨h.documents.trans h'.documents, h.bones.trans h'.bones⟩

theorem Extends.register (tables : Tables) (doc : String) : tables.Extends (tables.register doc) :=
  ⟨List.prefix_append _ _, List.prefix_rfl⟩

/-! ### Bones -/

theorem mem_bones_iff {bone : RevisionRow} : bone ∈ tables.bones ↔ ∃ row ∈ tables.revisions, row.bare = bone := by
  simp [bones]

theorem bones_reflag (flagged : RevisionRow → Bool) : (tables.reflag flagged).bones = tables.bones := by
  simp [bones, reflag, mapRevisions, RevisionRow.bare, Function.comp_def]

theorem bones_push : (tables.push new).bones = tables.bones ++ [(new.row (tables.lastSequence + 1)).bare] := by
  simp [bones, push]

/-- A revision of a derived id was wanted. Either it is a new row, or the id was there before, and then not below the wanted parent. -/
inductive Derives (before after : Tables) (child : NewRevision) (attachments : List Attachment) (revision : Revision) : Prop
  | grown (hfresh : before.sequenceOf? child.document child.rev = none)
      (hgains : before.Gains after [(child.row (before.lastSequence + 1)).bare]
        (attachments.map (attachmentRow (before.lastSequence + 1))))
      (hrev : revision.rev = child.rev) (hchild : revision.parent = child.parent)
  | stored (sequence : Int) (hfound : before.sequenceOf? child.document child.rev = some sequence)
      (hgains : before.Gains after [] (attachments.map (attachmentRow sequence)))
      (hrev : revision.rev = child.rev) (hchild : revision.parent ≠ child.parent)

theorem Gains.refl (tables : Tables) : tables.Gains tables [] [] :=
  ⟨rfl, (List.append_nil _).symm, (List.append_nil _).symm⟩

theorem Gains.trans {rows rows' : List RevisionRow} {attachments attachments' : List AttachmentRow}
    (h : before.Gains between rows attachments) (h' : between.Gains after rows' attachments') :
    before.Gains after (rows ++ rows') (attachments ++ attachments') where
  documents := h'.documents.trans h.documents
  bones := by rw [h'.bones, h.bones, List.append_assoc]
  attachments := by rw [h'.attachments, h.attachments, List.append_assoc]

theorem Gains.extends {rows : List RevisionRow} {attachments : List AttachmentRow}
    (h : before.Gains after rows attachments) : before.Extends after :=
  ⟨h.documents ▸ List.prefix_rfl, h.bones ▸ List.prefix_append _ _⟩

theorem Derives.extends {child : NewRevision} {attachments : List Attachment} {revision : Revision}
    (h : before.Derives after child attachments revision) : before.Extends after := by
  cases h with
  | grown _ hgains => exact hgains.extends
  | stored _ _ hgains => exact hgains.extends

theorem Derives.rev_eq {child : NewRevision} {attachments : List Attachment} {revision : Revision}
    (h : before.Derives after child attachments revision) : revision.rev = child.rev := by
  cases h with
  | grown _ _ hrev => exact hrev
  | stored _ _ _ hrev => exact hrev

theorem setCurrent_gains {sequence : Int} {current : Bool} {done : Unit}
    (h : setCurrent sequence current tables = .ok done tables') : tables.Gains tables' [] [] := by
  obtain ⟨-, rfl⟩ := setCurrent_ok_iff.mp h
  rw [flag_eq_reflag]
  exact ⟨rfl, by rw [bones_reflag, List.append_nil], (List.append_nil _).symm⟩

theorem pickWinner_gains {elected : Option Winner} (h : pickWinner document tables = .ok elected tables') :
    tables.Gains tables' [] [] := by
  obtain ⟨_, _, ⟨_, _, rfl⟩ | ⟨_, _, _, rfl⟩⟩ := pickWinner_ok_iff.mp h
  · exact Gains.refl tables
  · rw [crown_eq_reflag]
    exact ⟨rfl, by rw [bones_reflag, List.append_nil], (List.append_nil _).symm⟩

/-- An insertion adds the row at the answered sequence, or leaves the tables with the row they have there. -/
theorem insertRevision_gains {insertion : Insertion} (h : insertRevision new tables = .ok insertion tables') :
    (∃ sequence, tables.sequenceOf? new.document new.rev = some sequence ∧ insertion.sequence = sequence ∧
        tables.Gains tables' [] []) ∨
      (tables.sequenceOf? new.document new.rev = none ∧ insertion.sequence = tables.lastSequence + 1 ∧
        tables.Gains tables' [(new.row (tables.lastSequence + 1)).bare] []) := by
  rcases insertRevision_ok_iff.mp h with ⟨sequence, hfound, rfl, rfl⟩ | ⟨⟨hfresh, -⟩, rfl, rfl⟩
  · exact .inl ⟨sequence, hfound, rfl, Gains.refl tables⟩
  · exact .inr ⟨hfresh, rfl, ⟨rfl, bones_push, (List.append_nil _).symm⟩⟩

theorem insertAttachments_gains {sequence : Int} {attachments : List Attachment} {done : Unit}
    (h : insertAttachments sequence attachments tables = .ok done tables') :
    tables.Gains tables' [] (attachments.map (attachmentRow sequence)) := by
  obtain rfl := insertAttachments_ok h
  exact ⟨rfl, (List.append_nil _).symm, rfl⟩

theorem isLeaf_of_bones (h : tables.bones = tables'.bones) (sequence : Int) :
    tables.isLeaf sequence = tables'.isLeaf sequence := by
  have hany : ∀ tables : Tables, tables.isLeaf sequence = !tables.bones.any fun row => row.parent = some sequence := by
    intro tables
    simp [isLeaf, bones, RevisionRow.bare, Function.comp_def]
  rw [hany, hany, h]

theorem sequenceOf?_eq_bones (tables : Tables) (document : Int) (rev : RevId) :
    tables.sequenceOf? document rev
      = (tables.bones.find? fun row => row.document = document && row.revText = rev.text).map (·.sequence) := by
  simp [sequenceOf?, rowOf?, bones, RevisionRow.bare, List.find?_map, Function.comp_def]

theorem Extends.sequenceOf? {rev : RevId} {sequence : Int} (h : before.Extends after)
    (hfound : before.sequenceOf? document rev = some sequence) : after.sequenceOf? document rev = some sequence := by
  obtain ⟨rest, hrest⟩ := h.bones
  rw [sequenceOf?_eq_bones] at hfound ⊢
  obtain ⟨row, hrow, rfl⟩ := Option.map_eq_some_iff.mp hfound
  rw [← hrest, List.find?_append, hrow]
  rfl

theorem Extends.documentNumber? {doc : String} {number : Int} (h : before.Extends after)
    (hfound : before.documentNumber? doc = some number) : after.documentNumber? doc = some number := by
  obtain ⟨rest, hrest⟩ := h.documents
  obtain ⟨row, hrow, rfl⟩ := Option.map_eq_some_iff.mp hfound
  rw [Tables.documentNumber?, ← hrest, List.find?_append, hrow]
  rfl

theorem Extends.documentId? {doc : String} {number : Int} (h : before.Extends after)
    (hfound : before.documentId? number = some doc) : after.documentId? number = some doc := by
  obtain ⟨rest, hrest⟩ := h.documents
  obtain ⟨row, hrow, rfl⟩ := Option.map_eq_some_iff.mp hfound
  rw [Tables.documentId?, ← hrest, List.find?_append, hrow]
  rfl

/-- Where a revision is stored. -/
def place? (tables : Tables) (doc : String) (rev : RevId) : Option Int :=
  (tables.documentNumber? doc).bind fun number => tables.sequenceOf? number rev

theorem place?_eq_some_iff {doc : String} {rev : RevId} {sequence : Int} :
    tables.place? doc rev = some sequence ↔
      ∃ number, tables.documentNumber? doc = some number ∧ tables.sequenceOf? number rev = some sequence := by
  simp [place?, Option.bind_eq_some_iff]

theorem Extends.place? {doc : String} {rev : RevId} {sequence : Int} (h : before.Extends after) (hplace : before.place? doc rev = some sequence) :
    after.place? doc rev = some sequence := by
  obtain ⟨number, hnumber, hsequence⟩ := place?_eq_some_iff.mp hplace
  exact place?_eq_some_iff.mpr ⟨number, h.documentNumber? hnumber, h.sequenceOf? hsequence⟩

theorem isLeaf_eq_false_iff {sequence : Int} :
    tables.isLeaf sequence = false ↔ ∃ bone ∈ tables.bones, bone.parent = some sequence := by
  rw [← Bool.not_eq_true, isLeaf_iff]
  push Not
  simp only [mem_bones_iff]
  constructor
  · rintro ⟨row, hrow, hparent⟩
    exact ⟨row.bare, ⟨row, hrow, rfl⟩, hparent⟩
  · rintro ⟨_, ⟨row, hrow, rfl⟩, hparent⟩
    exact ⟨row, hrow, hparent⟩

theorem Extends.isLeaf_eq_false {sequence : Int} (h : before.Extends after) (hleaf : before.isLeaf sequence = false) :
    after.isLeaf sequence = false := by
  obtain ⟨bone, hbone, hparent⟩ := isLeaf_eq_false_iff.mp hleaf
  exact isLeaf_eq_false_iff.mpr ⟨bone, h.bones.subset hbone, hparent⟩

theorem Shape.nodup_bones (shape : tables.Shape) : tables.bones.Nodup := by
  have hbare : ∀ row ∈ tables.revisions, ∀ other ∈ tables.revisions, row.bare = other.bare → row = other :=
    fun row hrow other hother heq => shape.eq_of_sequence hrow hother (RevisionRow.bare_eq_iff.mp heq).1
  exact shape.nodup.map_on hbare

theorem Extends.exists_row {row : RevisionRow} (h : before.Extends after) (hrow : row ∈ before.revisions) :
    ∃ kept ∈ after.revisions, kept.bare = row.bare :=
  mem_bones_iff.mp (h.bones.subset (mem_bones_iff.mpr ⟨row, hrow, rfl⟩))

theorem Extends.lastSequence_le (h : before.Extends after) (shape : before.Shape) (shape' : after.Shape) :
    before.lastSequence ≤ after.lastSequence := by
  have hlength := h.bones.length_le
  simp only [Tables.bones, List.length_map] at hlength
  rw [shape.lastSequence_eq, shape'.lastSequence_eq]
  omega

theorem Extends.mem_bones_of_le {bone : RevisionRow} (h : before.Extends after) (shape : before.Shape)
    (shape' : after.Shape) (hbone : bone ∈ after.bones) (hle : bone.sequence ≤ before.lastSequence) :
    bone ∈ before.bones := by
  obtain ⟨row, hrow, rfl⟩ := mem_bones_iff.mp hbone
  obtain ⟨old, hold, hsequence⟩ := shape.exists_row_at (shape'.sequence_bounds hrow).1 hle
  obtain ⟨kept, hkept, hbare⟩ := h.exists_row hold
  have hplace : kept.sequence = row.sequence := (RevisionRow.bare_eq_iff.mp hbare).1.trans hsequence
  obtain rfl := shape'.eq_of_sequence hkept hrow hplace
  exact mem_bones_iff.mpr ⟨old, hold, hbare.symm⟩

theorem Shape.fresh_lastNumber (shape : tables.Shape) : ∀ bone ∈ tables.bones, bone.document ≠ tables.lastNumber + 1 := by
  intro bone hbone heq
  obtain ⟨row, hrow, rfl⟩ := mem_bones_iff.mp hbone
  obtain ⟨home, hhome, hnumber⟩ := shape.homes row hrow
  have hle := number_le_lastNumber hhome
  have hdocument : row.document = tables.lastNumber + 1 := heq
  omega

theorem lastSequence_of_bones (h : tables'.bones = tables.bones) : tables'.lastSequence = tables.lastSequence := by
  have hfold : ∀ tables : Tables, tables.lastSequence
      = tables.bones.foldl (fun greatest row => max greatest row.sequence) 0 := by
    intro tables
    simp [lastSequence, bones, RevisionRow.bare, List.foldl_map]
  rw [hfold, hfold, h]

theorem getBySequence_of_push {rev : RevId} {row : RevisionRow} {revision : Revision}
    (hbones : after.bones = before.bones ++ [row.bare]) (hplace : row.sequence = before.lastSequence + 1)
    (htext : row.revText = rev.text) (hread : after.getBySequence row.sequence = .ok (some revision)) :
    rev.generation < RevId.generationBound ∧ revision.rev = rev ∧ revision.parent = row.parent := by
  obtain ⟨found, hfound, hsequence, _, _, hrevision⟩ := getBySequence_ok_some hread
  obtain ⟨_, _, _, hparse, rfl⟩ := readRevision_ok_iff.mp hrevision
  have hbare : found.bare = row.bare := by
    have hmem : found.bare ∈ after.bones := mem_bones_iff.mpr ⟨found, hfound, rfl⟩
    rw [hbones] at hmem
    rcases List.mem_append.mp hmem with hold | hnew
    · obtain ⟨old, hold, heq⟩ := mem_bones_iff.mp hold
      have hle := sequence_le_lastSequence hold
      have hsame := (RevisionRow.bare_eq_iff.mp heq).1
      omega
    · exact List.mem_singleton.mp hnew
  obtain ⟨-, -, hparent, -, -, hrevText, -⟩ := RevisionRow.bare_eq_iff.mp hbare
  rw [hrevText, htext] at hparse
  have hrange := RevId.generation_lt_of_parse hparse
  rw [RevId.parse_text hrange] at hparse
  exact ⟨hrange, (Except.ok.inj hparse).symm, hparent⟩

/-- What an insertion below a leaf comes to, with only flags changed before it and attachments added after it. -/
theorem derives_of_insertRevision {lowered inserted : Tables} {child : NewRevision} {insertion : Insertion} {leaf : Int}
    {attachments : List Attachment} {revision : Revision} (shape : before.Shape) (legible : before.Legible)
    (hleaf : before.isLeaf leaf = true) (hparent : child.parent = some leaf) (hlower : before.Gains lowered [] [])
    (hinsert : insertRevision child lowered = .ok insertion inserted)
    (hrest : inserted.Gains after [] (attachments.map (attachmentRow insertion.sequence)))
    (hread : after.getBySequence insertion.sequence = .ok (some revision)) :
    child.rev.generation < RevId.generationBound ∧ before.Derives after child attachments revision := by
  have hbones : lowered.bones = before.bones := hlower.bones.trans (List.append_nil _)
  have hlast := lastSequence_of_bones hbones
  have hlookup : lowered.sequenceOf? child.document child.rev = before.sequenceOf? child.document child.rev := by
    rw [sequenceOf?_eq_bones, sequenceOf?_eq_bones, hbones]
  rcases insertRevision_gains hinsert with ⟨sequence, hfound, hsequence, hgains⟩ | ⟨hfresh, hsequence, hgains⟩
  · -- The id was stored before the insertion, so its row cannot stand below a leaf.
    have hall : before.Gains after [] (attachments.map (attachmentRow sequence)) :=
      hsequence ▸ (hlower.trans hgains).trans hrest
    rw [hlookup] at hfound
    obtain ⟨holder, hholder, -, htext, hat⟩ := shape.sequenceOf?_eq_some_iff.mp hfound
    have hreads := legible.reads hholder htext
    obtain ⟨row, hrow, hplace, _, _, hrevision⟩ := getBySequence_ok_some hread
    obtain ⟨_, _, _, hparse, rfl⟩ := readRevision_ok_iff.mp hrevision
    have hbone : row.bare ∈ before.bones := by
      rw [← hall.bones.trans (List.append_nil _)]
      exact mem_bones_iff.mpr ⟨row, hrow, rfl⟩
    obtain ⟨old, hold, hbare⟩ := mem_bones_iff.mp hbone
    obtain ⟨holdPlace, -, holdParent, -, -, holdText, -⟩ := RevisionRow.bare_eq_iff.mp hbare
    obtain rfl := shape.eq_of_sequence hold hholder (holdPlace.trans (hplace.trans (hsequence.trans hat.symm)))
    rw [← holdText, htext, RevId.parse_text hreads.2] at hparse
    refine ⟨hreads.2, .stored sequence hfound hall (Except.ok.inj hparse).symm fun heq => ?_⟩
    exact isLeaf_iff.mp hleaf old hold (holdParent.trans (heq.trans hparent))
  · rw [hlast] at hsequence hgains
    have hall : before.Gains after [(child.row (before.lastSequence + 1)).bare]
        (attachments.map (attachmentRow (before.lastSequence + 1))) :=
      hsequence ▸ (hlower.trans hgains).trans hrest
    rw [hsequence] at hread
    obtain ⟨hrange, hrev, hchild⟩ := getBySequence_of_push hall.bones rfl rfl hread
    exact ⟨hrange, .grown (hlookup ▸ hfresh) hall hrev hchild⟩

/-! ### In the middle of an edit -/

/-- Tables that are healthy but for the flags of one document. -/
structure Sturdy (tables : Tables) (document : Int) : Prop where
  shape : tables.Shape
  legible : tables.Legible
  crowned : ∀ other, other ≠ document → tables.Crowned other
  fertile : tables.barren = []

theorem Healthy.sturdy (healthy : tables.Healthy) (document : Int) : tables.Sturdy document :=
  ⟨healthy.shape, healthy.legible, fun other _ => healthy.crowned other, healthy.fertile⟩

theorem Sturdy.healthy (sturdy : tables.Sturdy document) (hcrowned : tables.Crowned document) : tables.Healthy where
  shape := sturdy.shape
  legible := sturdy.legible
  crowned := by
    intro other
    by_cases heq : other = document
    · rw [heq]
      exact hcrowned
    · exact sturdy.crowned other heq
  fertile := sturdy.fertile

theorem Healthy.register {doc : String} (healthy : tables.Healthy) (hnamed : isBlankId doc = false)
    (hfree : tables.documentNumber? doc = none) : (tables.register doc).Healthy where
  shape := healthy.shape.register hnamed hfree
  legible := healthy.legible.register doc
  crowned := healthy.crowned
  fertile := healthy.fertile

theorem Sturdy.setCurrent {sequence : Int} {current : Bool} {done : Unit} (sturdy : tables.Sturdy document)
    (hhome : ∀ row ∈ tables.revisions, row.sequence = sequence → row.document = document)
    (h : Tables.setCurrent sequence current tables = .ok done tables') : tables'.Sturdy document := by
  obtain ⟨-, rfl⟩ := setCurrent_ok_iff.mp h
  rw [flag_eq_reflag]
  refine ⟨sturdy.shape.reflag _, sturdy.legible.reflag _, fun other hne => ?_, sturdy.fertile⟩
  apply (sturdy.crowned other hne).reflag
  intro row hrow hdocument
  have hsequence : row.sequence ≠ sequence := fun heq => hne (hdocument.symm.trans (hhome row hrow heq))
  simp [hsequence]

theorem Sturdy.insertRevision {insertion : Insertion} (sturdy : tables.Sturdy new.document)
    (hrange : new.rev.generation < RevId.generationBound)
    (h : Tables.insertRevision new tables = .ok insertion tables') : tables'.Sturdy new.document := by
  rcases insertRevision_ok_iff.mp h with ⟨_, _, _, rfl⟩ | ⟨⟨hfresh, hrefusal⟩, _, rfl⟩
  · exact sturdy
  · have haccepts := (sturdy.shape.refusal?_eq_none_iff.mp hrefusal).1
    refine ⟨sturdy.shape.push haccepts hfresh, sturdy.legible.push hrange, fun other hne => ?_, sturdy.fertile⟩
    exact (sturdy.crowned other hne).push_of_ne sturdy.shape haccepts (Ne.symm hne)

theorem Crowned.describe {sequence : Int} {attachments : List Attachment} (h : tables.Crowned document) :
    (tables.describe sequence attachments).Crowned document :=
  h

theorem Sturdy.insertAttachments {sequence : Int} {attachments : List Attachment} {done : Unit}
    (sturdy : tables.Sturdy document) (h : Tables.insertAttachments sequence attachments tables = .ok done tables') :
    tables'.Sturdy document := by
  have hshape := sturdy.shape.insertAttachments h
  obtain rfl := insertAttachments_ok h
  exact ⟨hshape, sturdy.legible.describe sequence attachments, fun other hne => (sturdy.crowned other hne).describe,
    sturdy.fertile⟩

theorem Sturdy.pickWinner {elected : Option Winner} (sturdy : tables.Sturdy document)
    (h : Tables.pickWinner document tables = .ok elected tables') : tables'.Healthy := by
  have hcrowned := crowned_of_pickWinner sturdy.shape h
  suffices hsturdy : tables'.Sturdy document from hsturdy.healthy hcrowned
  obtain ⟨leaves, hleaves, ⟨_, _, rfl⟩ | ⟨leaf, hwinner, _, htables⟩⟩ := pickWinner_ok_iff.mp h
  · exact sturdy
  · have hcrowned := fun other hne => (sturdy.crowned other hne).pickWinner_of_ne sturdy.shape hne h
    rw [crown_eq_reflag] at htables
    subst htables
    exact ⟨sturdy.shape.reflag _, sturdy.legible.reflag _, hcrowned, sturdy.fertile⟩

end Tables

end RevisionForest
