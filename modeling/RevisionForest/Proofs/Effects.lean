import RevisionForest.Proofs.Edits
/-!
# Edits keep the tables healthy

What each edit that succeeds does to healthy tables: which rows it adds, and that the tables are healthy after it. Of an update and of a deletion there are two kinds. Usually the derived id is new, and the revision named gets a child of that id. But tables that hold the derived id already, under whatever parent, keep it where it is: then no row is added, and the revision named stays a leaf.
-/

namespace RevisionForest.Edit

open Tables

variable {draft draft' : Draft} {doc : String} {body : Bytes} {revision : Revision}

/-! ### Blobs -/

section Blobs

variable {known : List Bytes}

theorem create_writes (doc : String) (body : Bytes) {attachments : List NewAttachment}
    (hknown : ∀ attachment ∈ attachments, attachment.data ∈ known) : Writes known (create doc body attachments) := by
  refine Writes.get.bind fun _ => .guard ((Writes.statement _).bind fun _ => ?_)
  cases Attachment.checkNames [] attachments with
  | error fault => exact .throw_bind _ _
  | ok =>
    refine (Writes.storeAttachments _ hknown).bind fun _ => (Writes.statement _).bind fun _ => ?_
    exact (Writes.statement _).bind fun _ => (Writes.announce _).bind fun _ => .snapshot _

theorem update_writes (doc : String) (expected : RevId) (body : Bytes) {changes : AttachmentChanges}
    (hknown : ∀ attachment ∈ changes.put, attachment.data ∈ known) : Writes known (update doc expected body changes) := by
  refine (Writes.get.bind fun _ => .require _ _).bind fun _ => (Writes.get.bind fun _ => .require _ _).bind fun _ => ?_
  refine (Writes.query _).bind fun _ => (Writes.require _ _).bind fun _ => .guard (.guard ?_)
  refine (Writes.query _).bind fun _ => (Writes.ofExcept _).bind fun _ => ?_
  refine (Writes.storeAttachments _ hknown).bind fun _ => ?_
  refine (Writes.statement _).bind fun _ => (Writes.statement _).bind fun _ => (Writes.statement _).bind fun _ => ?_
  refine .guard ((Writes.statement _).bind fun _ => (Writes.statement _).bind fun _ => ?_)
  exact (Writes.announce _).bind fun _ => .snapshot _

theorem bury_writes (doc : String) (rev : RevId) : Writes known (bury doc rev) := by
  refine (Writes.get.bind fun _ => .require _ _).bind fun _ => (Writes.query _).bind fun _ => ?_
  refine (Writes.require _ _).bind fun target => .guard (Writes.get.bind fun _ => .guard ?_)
  refine (Writes.query _).bind fun _ => ?_
  cases target.current with
  | true =>
    refine (Writes.statement _).bind fun _ => (Writes.statement _).bind fun _ => (Writes.statement _).bind fun _ => ?_
    exact (Writes.announce _).bind fun _ => .snapshot _
  | false =>
    refine (Writes.statement _).bind fun _ => (Writes.pure _).bind fun _ => ?_
    exact (Writes.announce _).bind fun _ => .snapshot _

theorem liveLeaves_writes (doc : String) : Writes known (liveLeaves doc) :=
  (Writes.query _).bind fun _ => .pure _

theorem openDocument_writes (doc : String) : Writes known (openDocument doc) := by
  refine Writes.get.bind fun draft => ?_
  cases draft.tables.documentNumber? doc with
  | some number => exact .pure number
  | none => exact .statement _

theorem plantStubs_writes (number : Int) (parent : Option Int) (missing : List RevId) :
    Writes known (plantStubs number parent missing) := by
  induction missing generalizing parent with
  | nil => exact .pure parent
  | cons rev rest ih => exact (Writes.statement _).bind fun _ => ih _

theorem graft_writes {item : Graft} (hknown : ∀ attachment ∈ item.attachments, attachment.data ∈ known) :
    Writes known (graft item) := by
  refine (Writes.require _ _).bind fun rev => (openDocument_writes _).bind fun number => Writes.get.bind fun draft => ?_
  cases (draft.tables.sequenceOf? number rev).isSome with
  | true =>
    rw [if_pos rfl]
    exact .pure none
  | false =>
    rw [if_neg Bool.false_ne_true]
    refine (Writes.query _).bind fun _ => Writes.get.bind fun _ => (plantStubs_writes _ _ _).bind fun _ => ?_
    refine (Writes.statement _).bind fun _ => (Writes.attach _ _ hknown).bind fun _ => (Writes.statement _).bind fun _ => ?_
    exact (Writes.announce _).bind fun _ => (Writes.snapshot _).bind fun _ => .pure _

end Blobs

theorem create_grows (doc : String) (body : Bytes) (attachments : List NewAttachment) :
    Grows (create doc body attachments) :=
  (create_writes doc body fun _ => List.mem_map_of_mem).grows

theorem update_grows (doc : String) (expected : RevId) (body : Bytes) (changes : AttachmentChanges) :
    Grows (update doc expected body changes) :=
  (update_writes doc expected body fun _ => List.mem_map_of_mem).grows

theorem bury_grows (doc : String) (rev : RevId) : Grows (bury doc rev) :=
  Writes.grows (bury_writes doc rev : Writes [] _)

theorem liveLeaves_grows (doc : String) : Grows (liveLeaves doc) :=
  Writes.grows (liveLeaves_writes doc : Writes [] _)

theorem graft_grows (item : Graft) : Grows (graft item) :=
  (graft_writes fun _ => List.mem_map_of_mem).grows

/-! ### Tables -/

theorem create_effect {attachments : List NewAttachment} (healthy : draft.tables.Healthy)
    (h : create doc body attachments draft = .ok revision draft') :
    let stored := attachments.map (·.stored 1)
    let rev := RevId.derive none false body (Attachment.digests stored)
    let root : NewRevision := ⟨draft.tables.lastNumber + 1, rev, none, false, true, true, body⟩
    let sequence := draft.tables.lastSequence + 1
    (isBlankId doc = false ∧ draft.tables.documentNumber? doc = none ∧
        Attachment.checkNames [] attachments = .ok () ∧
        BlobStore.putAll (attachments.map (·.data)) draft.blobs = .ok () draft'.blobs ∧
        draft'.events = draft.events ++ [⟨doc, none, some ⟨rev, sequence, false⟩⟩]) ∧
      draft'.tables.Healthy ∧
      (draft.tables.register doc).Gains draft'.tables [(root.row sequence).bare] (stored.map (attachmentRow sequence)) := by
  intro stored rev root sequence
  obtain ⟨hnames, number, registered, blobs, insertion, inserted, described, hdocument, hblobs, hinsert, hdescribe, -,
    rfl⟩ := create_ok h
  obtain ⟨⟨hnamed, hfree⟩, rfl, rfl⟩ := insertDocument_ok_iff.mp hdocument
  have hregistered := healthy.register hnamed hfree
  have hfirst : ∀ row ∈ (draft.tables.register doc).revisions, row.document ≠ root.document := fun row hrow =>
    healthy.shape.fresh_lastNumber row.bare (mem_bones_iff.mpr ⟨row, hrow, rfl⟩)
  have hfresh : (draft.tables.register doc).sequenceOf? root.document root.rev = none :=
    sequenceOf?_eq_none_iff.mpr fun row hrow heq => absurd heq (hfirst row hrow)
  have hrange : root.rev.generation < RevId.generationBound := by
    change 1 < RevId.generationBound
    decide
  rcases insertRevision_ok_iff.mp hinsert with ⟨_, hfound, _, _⟩ | ⟨⟨_, hrefusal⟩, rfl, rfl⟩
  · rw [hfresh] at hfound
    nomatch hfound
  · refine ⟨⟨hnamed, hfree, hnames, hblobs, rfl⟩, ?_⟩
    have haccepts := (hregistered.shape.refusal?_eq_none_iff.mp hrefusal).1
    have hcrowned := crowned_push_first hregistered.shape hregistered.legible haccepts hrange rfl hfirst
    have hsturdy := (hregistered.sturdy root.document).insertRevision hrange hinsert
    refine ⟨(hsturdy.insertAttachments hdescribe).healthy ?_, ?_⟩
    · obtain rfl := insertAttachments_ok hdescribe
      exact hcrowned.describe
    · have hpush : (draft.tables.register doc).Gains ((draft.tables.register doc).push root)
          [(root.row sequence).bare] [] := ⟨rfl, bones_push, (List.append_nil _).symm⟩
      exact hpush.trans (insertAttachments_gains hdescribe)

theorem keptAttachments_ok {parent kept : List Attachment} {changes : AttachmentChanges}
    (h : keptAttachments parent changes = .ok kept) :
    kept = parent.filter fun attachment =>
      !(changes.remove ++ changes.put.map (·.name)).contains attachment.name := by
  have hdrops : ∀ name, (changes.remove ++ changes.put.map (·.name)).contains name = changes.drops name := by
    intro name
    rw [Bool.eq_iff_iff]
    simp [AttachmentChanges.drops]
  unfold keptAttachments at h
  split at h
  · nomatch h
  · obtain rfl := Except.ok.inj h
    simp only [hdrops]

/-- The live winner gets a live child, unless the derived id is there already. -/
theorem update_effect {expected : RevId} {changes : AttachmentChanges} (healthy : draft.tables.Healthy)
    (h : update doc expected body changes draft = .ok revision draft') :
    ∃ number row attachments kept,
      (draft.tables.documentNumber? doc = some number ∧ row ∈ draft.tables.leafRows number ∧
        row.revText = expected.text ∧ (row.current = true ∧ row.deleted = false) ∧
        draft.tables.attachmentsFor row.sequence = .ok attachments ∧ keptAttachments attachments changes = .ok kept) ∧
      let fresh := changes.put.map (·.stored (expected.generation + 1))
      let rev := RevId.derive (some expected) false body (Attachment.digests (kept ++ fresh))
      draft'.tables.Healthy ∧ BlobStore.putAll (changes.put.map (·.data)) draft.blobs = .ok () draft'.blobs ∧
      draft.tables.Derives draft'.tables ⟨number, rev, some row.sequence, false, true, true, body⟩ (kept ++ fresh)
        revision := by
  obtain ⟨number, parent, winner, attachments, kept, ⟨hnumber, hparent, hwinner, hsame, hlive, hattachments, hkept⟩,
    blobs, lowered, insertion, inserted, copied, described, elected, crowned, hblobs, hlower, hinsert, hcopy, hdescribe,
    hpick, hread, rfl⟩ := update_ok h
  obtain ⟨row, hrow, hdocument, hcurrent, hreadWinner⟩ := currentWinner_ok_some hwinner
  obtain ⟨-, hsequence, hdeleted⟩ := readWinner_ok_iff.mp hreadWinner
  obtain ⟨named, hnamed, -, htext, hplace⟩ := healthy.shape.sequenceOf?_eq_some_iff.mp hparent
  obtain rfl := healthy.shape.eq_of_sequence hrow hnamed (hsequence.trans (hsame.trans hplace.symm))
  obtain rfl := hplace
  have hleafRow := (healthy.crowned number).mem_leafRows healthy.shape hrow hdocument hcurrent
  have hleaf := (mem_leafRows_iff.mp hleafRow).2.2
  refine ⟨number, row, attachments, kept,
    ⟨hnumber, hleafRow, htext, ⟨hcurrent, hdeleted.trans hlive⟩, hattachments, hkept⟩, ?_⟩
  obtain ⟨again, hagain, hcopied, -⟩ := copyAttachments_ok_iff.mp hcopy
  have hbefore : inserted.attachments = draft.tables.attachments := by
    have hlowered : lowered.attachments = draft.tables.attachments := by
      simpa using (setCurrent_gains hlower).attachments
    rcases insertRevision_gains hinsert with ⟨_, _, _, hgains⟩ | ⟨_, _, hgains⟩
    · rw [hgains.attachments, List.append_nil, hlowered]
    · rw [hgains.attachments, List.append_nil, hlowered]
  have hsource : inserted.attachmentsFor row.sequence = draft.tables.attachmentsFor row.sequence := by
    simp only [attachmentsFor, hbefore]
  rw [hsource, hattachments] at hagain
  obtain rfl := Except.ok.inj hagain
  rw [← keptAttachments_ok hkept] at hcopied
  have hrest : inserted.Gains crowned []
      ((kept ++ changes.put.map (·.stored (expected.generation + 1))).map (attachmentRow insertion.sequence)) := by
    have hall := ((insertAttachments_gains hcopied).trans (insertAttachments_gains hdescribe)).trans
      (pickWinner_gains hpick)
    simpa only [List.append_nil, List.map_append] using hall
  obtain ⟨hrange, hderives⟩ := derives_of_insertRevision healthy.shape healthy.legible hleaf rfl
    (setCurrent_gains hlower) hinsert hrest hread
  refine ⟨?_, hblobs, hderives⟩
  have hlowered : lowered.Sturdy number := (healthy.sturdy number).setCurrent
    (fun other hother heq => healthy.shape.eq_of_sequence hother hrow heq ▸ hdocument) hlower
  have hinserted : inserted.Sturdy number := Sturdy.insertRevision hlowered hrange hinsert
  exact ((hinserted.insertAttachments hcopied).insertAttachments hdescribe).pickWinner hpick

theorem bury_effect {rev : RevId} (healthy : draft.tables.Healthy) (h : bury doc rev draft = .ok revision draft') :
    ∃ number row,
      (draft.tables.documentNumber? doc = some number ∧ row ∈ draft.tables.leafRows number ∧ row.revText = rev.text ∧
        row.deleted = false) ∧
      draft'.tables.Healthy ∧ draft'.blobs = draft.blobs ∧
      draft.tables.Derives draft'.tables
        ⟨number, RevId.derive (some rev) true Body.empty [], some row.sequence, true, row.current, true, Body.empty⟩ []
        revision := by
  obtain ⟨number, target, prev, ⟨hnumber, htarget, hlive, hleaf, -⟩, insertion, inserted, new, crowned, hwork, hread,
    rfl⟩ := bury_ok_iff.mp h
  obtain ⟨row, hrow, hdocument, htext, hrevision⟩ := getRevision_ok_some hnumber htarget
  obtain ⟨_, _, _, _, rfl⟩ := readRevision_ok_iff.mp hrevision
  have hleafRow : row ∈ draft.tables.leafRows number := mem_leafRows_iff.mpr ⟨hrow, hdocument, hleaf⟩
  refine ⟨number, row, ⟨hnumber, hleafRow, htext, hlive⟩, ?_⟩
  rcases hwork with ⟨hcurrent, lowered, hlower, hinsert, hpick⟩ | ⟨hcurrent, hinsert, rfl, rfl⟩
  · have hrest : inserted.Gains crowned [] (([] : List Attachment).map (attachmentRow insertion.sequence)) :=
      pickWinner_gains hpick
    obtain ⟨hrange, hderives⟩ := derives_of_insertRevision healthy.shape healthy.legible hleaf rfl
      (setCurrent_gains hlower) hinsert hrest hread
    refine ⟨?_, rfl, hderives⟩
    have hlowered : lowered.Sturdy number := (healthy.sturdy number).setCurrent
      (fun other hother heq => healthy.shape.eq_of_sequence hother hrow heq ▸ hdocument) hlower
    have hinserted : inserted.Sturdy number := Sturdy.insertRevision hlowered hrange hinsert
    exact hinserted.pickWinner hpick
  · have hrest : crowned.Gains crowned [] (([] : List Attachment).map (attachmentRow insertion.sequence)) :=
      Gains.refl crowned
    obtain ⟨hrange, hderives⟩ := derives_of_insertRevision healthy.shape healthy.legible hleaf rfl
      (Gains.refl draft.tables) hinsert hrest hread
    refine ⟨?_, rfl, hderives⟩
    have hinserted : crowned.Sturdy number := Sturdy.insertRevision (healthy.sturdy number) hrange hinsert
    refine hinserted.healthy ?_
    rcases insertRevision_ok_iff.mp hinsert with ⟨_, _, _, rfl⟩ | ⟨⟨_, hrefusal⟩, _, rfl⟩
    · exact healthy.crowned number
    · have haccepts := (healthy.shape.refusal?_eq_none_iff.mp hrefusal).1
      exact (healthy.crowned number).push_tombstone healthy.shape healthy.legible haccepts hrange rfl hcurrent hleafRow
        hlive hcurrent rfl

end RevisionForest.Edit
