import RevisionForest.Proofs.Grafts
import RevisionForest.Proofs.Pedigree
import RevisionForest.Proofs.Reading
/-!
# Snapshots

An edit answers the row it has written as it is at that moment, and this is the last thing it does. So what it answers is what the tables hold under this id when it has ended (`Edit.create_has`, `Edit.update_has`, `Edit.bury_has`, `Edit.graft_has`). Afterwards nothing of a stored revision changes but its flag, as long as no attachment is described (`Has.kept`), and the flag tells whether the revision is shown of its document (`Healthy.current_iff`).
-/

namespace RevisionForest

namespace Tables

variable {tables before after inserted : Tables} {doc : String} {rev : RevId} {sequence number : Int}
  {rows : List RevisionRow} {attachments : List AttachmentRow} {new : NewRevision} {insertion : Insertion}
  {revision : Revision}

/-- A revision is stored just as it stands here. -/
def Has (tables : Tables) (revision : Revision) : Prop :=
  tables.getRevision revision.doc revision.rev = .ok (some revision)

/-! ### The row of an answer -/

theorem exists_number_of_getRevision (h : tables.getRevision doc rev = .ok (some revision)) :
    ∃ number, tables.documentNumber? doc = some number := by
  cases hnumber : tables.documentNumber? doc with
  | some number => exact ⟨number, rfl⟩
  | none =>
    simp only [getRevision, select, hnumber] at h
    cases h

theorem Has.exists_row (h : tables.Has revision) :
    ∃ row ∈ tables.revisions, tables.documentNumber? revision.doc = some row.document ∧
      row.revText = revision.rev.text ∧ tables.readRevision revision.doc row = .ok revision := by
  obtain ⟨number, hnumber⟩ := exists_number_of_getRevision h
  obtain ⟨row, hrow, rfl, htext, hread⟩ := getRevision_ok_some hnumber h
  exact ⟨row, hrow, hnumber, htext, hread⟩

theorem insertRevision_row (h : insertRevision new tables = .ok insertion inserted) :
    ∃ row ∈ inserted.revisions, row.document = new.document ∧ row.revText = new.rev.text ∧
      row.sequence = insertion.sequence := by
  rcases insertRevision_ok_iff.mp h with ⟨sequence, hfound, rfl, rfl⟩ | ⟨-, rfl, rfl⟩
  · obtain ⟨row, hrow, rfl⟩ := Option.map_eq_some_iff.mp hfound
    have htest := List.find?_some hrow
    simp only [Bool.and_eq_true, decide_eq_true_eq] at htest
    exact ⟨row, List.mem_of_find?_eq_some hrow, htest.1, htest.2, rfl⟩
  · exact ⟨new.row (tables.lastSequence + 1), mem_push_iff.mpr (.inr rfl), rfl, rfl, rfl⟩

/-- What is read right after an insertion, with only flags and attachments changed in between, is stored so under its id. -/
theorem Healthy.has_inserted (healthy : after.Healthy) (hnumber : after.documentNumber? doc = some new.document)
    (hinsert : insertRevision new tables = .ok insertion inserted) (hrest : inserted.Gains after [] attachments)
    (hread : after.getBySequence insertion.sequence = .ok (some revision)) :
    after.Has revision ∧ revision.doc = doc ∧ revision.rev = new.rev := by
  obtain ⟨written, hwritten, hdocument, htext, hplace⟩ := insertRevision_row hinsert
  obtain ⟨kept, hkept, hbare⟩ := hrest.extends.exists_row hwritten
  obtain ⟨hsequence, hhome, -, -, -, hname, -⟩ := RevisionRow.bare_eq_iff.mp hbare
  obtain ⟨row, hrow, hfound, named, hnamed, hrevision⟩ := getBySequence_ok_some hread
  obtain rfl := healthy.shape.eq_of_sequence hkept hrow (hsequence.trans (hplace.trans hfound.symm))
  have hid := healthy.shape.documentNumber?_eq_some_iff.mpr (healthy.shape.documentId?_eq_some_iff.mp hnamed)
  rw [hhome, hdocument] at hid
  obtain rfl := healthy.shape.doc_eq_of_number hid hnumber
  have hstored : ∀ rev, kept.revText = rev.text → after.getRevision named rev = .ok (some revision) := fun rev hrev =>
    healthy.getRevision_of_row ((hhome.trans hdocument).symm ▸ hnumber) hkept hrev hrevision
  have hreads := healthy.legible.reads_of_readRevision hkept hrevision
  obtain ⟨_, _, -, -, rfl⟩ := readRevision_ok_iff.mp hrevision
  exact ⟨hstored _ hreads.1, rfl, RevId.text_injective (hreads.1.symm.trans (hname.trans htext))⟩

theorem Healthy.exists_has {bone : RevisionRow} (healthy : tables.Healthy) (hbone : bone ∈ tables.bones)
    (hnumber : tables.documentNumber? doc = some bone.document) (htext : bone.revText = rev.text) :
    ∃ current attachments, tables.attachmentsFor bone.sequence = .ok attachments ∧
      tables.Has ⟨doc, bone.document, rev, bone.sequence, bone.parent, bone.deleted, current, bone.available, bone.body,
        attachments⟩ := by
  obtain ⟨row, hrow, rfl⟩ := mem_bones_iff.mp hbone
  obtain ⟨attachments, hattachments, hread⟩ := healthy.legible.readRevision_ok (healthy.legible.reads hrow htext) doc
  have hhome : tables.documentNumber? doc = some row.document := hnumber
  exact ⟨row.current, attachments, hattachments, healthy.getRevision_of_row hhome hrow htext hread⟩

theorem Has.unique {other : Revision} (h : tables.Has revision) (hother : tables.Has other)
    (hdoc : other.doc = revision.doc) (hrev : other.rev = revision.rev) : other = revision := by
  rw [Has, hdoc, hrev, h] at hother
  exact (Option.some.inj (Except.ok.inj hother)).symm

theorem Has.kept (h : before.Has revision) (healthy : after.Healthy) (hgains : before.Gains after rows []) :
    ∃ current, after.Has { revision with current := current } := by
  obtain ⟨row, hrow, hnumber, htext, hread⟩ := h.exists_row
  obtain ⟨kept, hkept, hbare⟩ := hgains.extends.exists_row hrow
  obtain ⟨hsequence, hdocument, hparent, hdeleted, havailable, hname, hbody⟩ := RevisionRow.bare_eq_iff.mp hbare
  obtain ⟨attachments, found, hattachments, hparse, heq⟩ := readRevision_ok_iff.mp hread
  have hnumber' : after.documentNumber? revision.doc = some kept.document := by
    rw [hdocument]
    exact hgains.extends.documentNumber? hnumber
  have hsame : after.attachmentsFor kept.sequence = .ok attachments := by
    rw [hsequence, ← hattachments]
    simp only [attachmentsFor, hgains.attachments, List.append_nil]
  refine ⟨kept.current, ?_⟩
  refine healthy.getRevision_of_row hnumber' hkept (hname.trans htext) (readRevision_ok_iff.mpr ?_)
  refine ⟨attachments, found, hsame, hname ▸ hparse, ?_⟩
  rw [heq]
  simp only [hsequence, hdocument, hparent, hdeleted, havailable, hbody]

theorem Healthy.current_iff (healthy : tables.Healthy) (h : tables.Has revision) :
    revision.current = true ↔
      ∃ winner, tables.currentRevision revision.doc = .ok (some winner) ∧ winner.rev = revision.rev := by
  obtain ⟨row, hrow, hnumber, htext, hread⟩ := h.exists_row
  obtain ⟨_, _, -, -, heq⟩ := readRevision_ok_iff.mp hread
  have hflag : revision.current = row.current := by rw [heq]
  rw [hflag]
  constructor
  · intro hcurrent
    exact ⟨revision, healthy.currentRevision_of_row hnumber hrow hcurrent hread, rfl⟩
  · rintro ⟨winner, hwinner, hrev⟩
    obtain ⟨other, hother, hhome, hcurrent, hshown⟩ := currentRevision_ok_some hnumber hwinner
    have hreads := healthy.legible.reads_of_readRevision hother hshown
    rw [hrev] at hreads
    rwa [healthy.shape.eq_of_revText hrow hother hhome.symm (htext.trans hreads.1.symm)]

end Tables

/-! ### Edits -/

namespace Edit

open Tables

variable {draft draft' : Draft} {doc : String} {body : Bytes} {revision : Revision}

theorem create_has {attachments : List NewAttachment} (healthy : draft.tables.Healthy)
    (h : create doc body attachments draft = .ok revision draft') :
    draft'.tables.Has revision ∧ revision.doc = doc := by
  obtain ⟨-, hafter, -⟩ := create_effect healthy h
  obtain ⟨-, number, registered, blobs, insertion, inserted, described, hdocument, -, hinsert, hdescribe, hread, rfl⟩ :=
    create_ok h
  obtain ⟨-, rfl, rfl⟩ := insertDocument_ok_iff.mp hdocument
  suffices hregistered : described.documentNumber? doc = some (draft.tables.lastNumber + 1) by
    obtain ⟨hhas, hhome, -⟩ := hafter.has_inserted hregistered hinsert (insertAttachments_gains hdescribe) hread
    exact ⟨hhas, hhome⟩
  have hdocuments : described.documents = draft.tables.documents ++ [⟨draft.tables.lastNumber + 1, doc⟩] := by
    obtain rfl := insertAttachments_ok hdescribe
    rcases insertRevision_ok_iff.mp hinsert with ⟨_, _, _, rfl⟩ | ⟨_, _, rfl⟩ <;> rfl
  refine hafter.shape.documentNumber?_eq_some_iff.mpr ?_
  rw [hdocuments]
  exact List.mem_append_right _ (List.mem_singleton.mpr rfl)

theorem update_has {expected : RevId} {changes : AttachmentChanges} (healthy : draft.tables.Healthy)
    (h : update doc expected body changes draft = .ok revision draft') :
    draft'.tables.Has revision ∧ revision.doc = doc := by
  obtain ⟨_, _, _, _, -, hafter, -, hderives⟩ := update_effect healthy h
  obtain ⟨number, _, _, _, kept, ⟨hnumber, -, -, -, -, -, -⟩, blobs, lowered, insertion, inserted, copied, described,
    elected, crowned, -, -, hinsert, hcopy, hdescribe, hpick, hread, rfl⟩ := update_ok h
  obtain ⟨_, -, hcopied, -⟩ := copyAttachments_ok_iff.mp hcopy
  have hrest := ((insertAttachments_gains hcopied).trans (insertAttachments_gains hdescribe)).trans
    (pickWinner_gains hpick)
  obtain ⟨hhas, hhome, -⟩ := hafter.has_inserted (hderives.extends.documentNumber? hnumber) hinsert hrest hread
  exact ⟨hhas, hhome⟩

theorem bury_has {rev : RevId} (healthy : draft.tables.Healthy) (h : bury doc rev draft = .ok revision draft') :
    draft'.tables.Has revision ∧ revision.doc = doc := by
  obtain ⟨_, _, -, hafter, -, hderives⟩ := bury_effect healthy h
  obtain ⟨number, target, prev, ⟨hnumber, -⟩, insertion, inserted, new, crowned, hwork, hread, rfl⟩ := bury_ok_iff.mp h
  have hnumber' := hderives.extends.documentNumber? hnumber
  rcases hwork with ⟨-, lowered, -, hinsert, hpick⟩ | ⟨-, hinsert, -, rfl⟩
  · obtain ⟨hhas, hhome, -⟩ := hafter.has_inserted hnumber' hinsert (pickWinner_gains hpick) hread
    exact ⟨hhas, hhome⟩
  · obtain ⟨hhas, hhome, -⟩ := hafter.has_inserted hnumber' hinsert (Gains.refl crowned) hread
    exact ⟨hhas, hhome⟩

theorem graft_has {item : Graft} (healthy : draft.tables.Healthy) (hgap : Graft.gap? item.history = none)
    (h : graft item draft = .ok (some revision) draft') :
    draft'.tables.Has revision ∧ revision.doc = item.doc ∧ item.history.getLast? = some revision.rev := by
  obtain ⟨_, _, _, ⟨-, -, hafter⟩, -⟩ := graft_effect healthy hgap h
  obtain ⟨rev, number, opened, hrev, hopen, ⟨-, hnone, -⟩ | ⟨-, prev, parent, planted, insertion, inserted, blobs,
    attached, elected, crowned, found, -, hplant, hinsert, -, hattach, hpick, hread, hfound, rfl⟩⟩ := graft_ok_iff.mp h
  · nomatch hnone
  obtain rfl := Option.some.inj hfound
  obtain ⟨hopened, hnumber, -⟩ := openTables_ok healthy hopen
  obtain ⟨again, hagain, hstubs, -⟩ := plant_missing hopened hnumber hgap
  rw [hplant] at hagain
  obtain ⟨rfl, rfl⟩ := EStateM.Result.ok.inj hagain
  have hrest := (insertAttachments_gains hattach).trans (pickWinner_gains hpick)
  have hinserted : planted.Extends inserted := by
    rcases insertRevision_gains hinsert with ⟨_, -, -, hgains⟩ | ⟨-, -, hgains⟩ <;> exact hgains.extends
  have hnumber' := ((hstubs.extends.trans hinserted).trans hrest.extends).documentNumber? hnumber
  obtain ⟨hhas, hhome, hname⟩ := hafter.has_inserted hnumber' hinsert hrest hread
  exact ⟨hhas, hhome, hrev.trans (congrArg some hname.symm)⟩

end Edit

end RevisionForest
