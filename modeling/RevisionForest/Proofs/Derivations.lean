import RevisionForest.Proofs.Burials
import RevisionForest.Proofs.Fingerprints
import RevisionForest.Proofs.Stock
import RevisionForest.Proofs.Successors
/-!
# Ids match what is stored

The id of a revision that a store makes itself is derived before anything of it is written, and its attachments are then written in two parts and read back by name. When a row was added, all that the id was derived from is found in it (`Tables.Records`), with the same attachments in some order, and the order makes no difference to the id. So the id can be derived again from what is read, and two stores that are asked for the same content give it the same id (`Store.Onward.authored_authentic`).
-/

namespace RevisionForest

open Tables

namespace Tables

variable {before after : Tables} {doc : String} {content : Content} {child : NewRevision} {attached : List Attachment}
  {revision : Revision}

/-- The one new row says what a content says, below the row of its parent. -/
structure Records (before after : Tables) (doc : String) (content : Content) (child : NewRevision)
    (attached : List Attachment) : Prop where
  shape : before.Shape
  healthy' : after.Healthy
  gains : before.Gains after [(child.row (before.lastSequence + 1)).bare]
    (attached.map (attachmentRow (before.lastSequence + 1)))
  number : after.documentNumber? doc = some child.document
  rev : child.rev = content.rev
  deleted : child.deleted = content.deleted
  body : child.body = content.body
  attachments : Attachment.digests attached = content.attachments
  root : content.parent = none → child.parent = none
  above : ∀ rev, content.parent = some rev →
    ∃ row ∈ before.revisions, row.document = child.document ∧ row.revText = rev.text ∧ child.parent = some row.sequence

namespace Records

variable (h : before.Records after doc content child attached)

include h

theorem has : ∃ current listed, listed.Perm attached ∧ (listed.map (·.name)).Nodup ∧
    after.Has ⟨doc, child.document, child.rev, before.lastSequence + 1, child.parent, child.deleted, current,
      child.available, child.body, listed⟩ := by
  have hbone : (child.row (before.lastSequence + 1)).bare ∈ after.bones :=
    h.gains.bones ▸ List.mem_append_right _ (List.mem_singleton.mpr rfl)
  have htext : (child.row (before.lastSequence + 1)).bare.revText = child.rev.text := rfl
  obtain ⟨current, listed, hlisted, hhas⟩ := h.healthy'.exists_has hbone h.number htext
  have hdescribed := h.shape.described_fresh (by omega) h.gains.attachments
  obtain ⟨found, hfound, hperm⟩ := attachmentsFor_perm hdescribed
  obtain rfl : found = listed := Except.ok.inj (hfound.symm.trans hlisted)
  exact ⟨current, found, hperm, h.healthy'.nodup_names hfound, hhas⟩

theorem parent_has {rev : RevId} (hparent : content.parent = some rev) :
    ∃ parent, after.Has parent ∧ parent.doc = doc ∧ parent.rev = rev ∧ child.parent = some parent.sequence := by
  obtain ⟨row, hrow, hdocument, htext, hchild⟩ := h.above rev hparent
  have hbone : row.bare ∈ after.bones := h.gains.bones ▸ List.mem_append_left _ (mem_bones_iff.mpr ⟨row, hrow, rfl⟩)
  obtain ⟨current, listed, -, hhas⟩ :=
    h.healthy'.exists_has hbone (h.number.trans (congrArg some hdocument.symm)) htext
  exact ⟨_, hhas, rfl, rfl, hchild⟩

theorem alike (hhas : after.Has revision) (hdoc : revision.doc = doc) (hrev : revision.rev = child.rev) :
    content.Alike ⟨content.parent, revision.deleted, revision.body, Attachment.digests revision.attachments⟩ ∧
      (revision.attachments.map (·.name)).Nodup ∧ revision.parent = child.parent := by
  obtain ⟨current, listed, hperm, hnames, hstored⟩ := h.has
  obtain rfl := hhas.unique hstored hdoc.symm hrev.symm
  refine ⟨⟨rfl, h.deleted.symm, h.body.symm, ?_⟩, hnames, rfl⟩
  rw [← h.attachments]
  exact (hperm.map _).symm

end Records

theorem Derives.grown_of_length (h : before.Derives after child attached revision)
    (hgrown : before.revisions.length < after.revisions.length) :
    before.Gains after [(child.row (before.lastSequence + 1)).bare]
      (attached.map (attachmentRow (before.lastSequence + 1))) := by
  cases h with
  | grown _ hgains => exact hgains
  | stored _ _ hgains =>
    have hbones := congrArg List.length hgains.bones
    simp only [bones, List.append_nil, List.length_map] at hbones
    omega

end Tables

/-! ### Edits -/

namespace Edit

variable {draft draft' : Draft} {doc : String} {body : Bytes} {revision : Revision}

theorem create_records {attachments : List NewAttachment} (healthy : draft.tables.Healthy)
    (h : create doc body attachments draft = .ok revision draft') :
    let content : Content := ⟨none, false, body, Attachment.digests (attachments.map (·.stored 1))⟩
    ∃ child, (draft.tables.register doc).Records draft'.tables doc content child (attachments.map (·.stored 1)) ∧
      revision.rev = child.rev := by
  intro content
  obtain ⟨⟨hnamed, hfree, -⟩, healthy', hgains⟩ := create_effect healthy h
  have hnumber := (hgains.documentNumber? doc).trans (healthy.shape.documentNumber?_register_self hnamed hfree)
  refine ⟨_, ⟨(healthy.register hnamed hfree).shape, healthy', hgains, hnumber, rfl, rfl, rfl, rfl, fun _ => rfl, nofun⟩, ?_⟩
  obtain ⟨-, _, _, _, _, _, _, hdocument, -, hinsert, hdescribe, hread, rfl⟩ := create_ok h
  obtain ⟨-, rfl, rfl⟩ := insertDocument_ok_iff.mp hdocument
  exact (healthy'.has_inserted hnumber hinsert (insertAttachments_gains hdescribe) hread).2.2

theorem update_records {expected : RevId} {changes : AttachmentChanges} {parent : Revision}
    (healthy : draft.tables.Healthy) (hparent : draft.tables.getRevision doc expected = .ok (some parent))
    (h : update doc expected body changes draft = .ok revision draft') :
    let attached := changes.applied parent.attachments (expected.generation + 1)
    let content : Content := ⟨some expected, false, body, Attachment.digests attached⟩
    revision.rev = content.rev ∧ (draft.tables.revisions.length < draft'.tables.revisions.length →
      ∃ child, draft.tables.Records draft'.tables doc content child attached ∧ revision.rev = child.rev) := by
  intro attached content
  obtain ⟨number, row, attachments, kept, ⟨hnumber, hleaf, htext, -, hattachments, hkept⟩, healthy', -, hderives⟩ :=
    update_effect healthy h
  obtain ⟨hrow, rfl, -⟩ := mem_leafRows_iff.mp hleaf
  have hsame : parent.attachments = attachments := by
    obtain ⟨named, hnamed, hhome, hname, hread⟩ := getRevision_ok_some hnumber hparent
    obtain rfl := healthy.shape.eq_of_revText hnamed hrow hhome (hname.trans htext.symm)
    obtain ⟨found, _, hfound, -, rfl⟩ := readRevision_ok_iff.mp hread
    exact Except.ok.inj (hfound.symm.trans hattachments)
  rw [keptAttachments_applied hkept, ← hsame] at hderives
  refine ⟨hderives.rev_eq, fun hgrown => ⟨_, ?_, hderives.rev_eq⟩⟩
  have hgains := hderives.grown_of_length hgrown
  exact {
    shape := healthy.shape
    healthy' := healthy'
    gains := hgains
    number := (hgains.documentNumber? doc).trans hnumber
    rev := rfl
    deleted := rfl
    body := rfl
    attachments := rfl
    root := nofun
    above := fun _ hsome => ⟨row, hrow, rfl, Option.some.inj hsome ▸ htext, rfl⟩ }

end Edit

theorem Tables.LiveLeaf.records {before after : Tables} {doc : String} {rev : RevId} {row : RevisionRow}
    (h : before.LiveLeaf doc rev row) (shape : before.Shape) (healthy' : after.Healthy)
    (hgains : before.Gains after [((tombstone row rev).row (before.lastSequence + 1)).bare] []) :
    before.Records after doc (Content.tombstone rev) (tombstone row rev) [] where
  shape := shape
  healthy' := healthy'
  gains := hgains
  number := (hgains.documentNumber? doc).trans h.number
  rev := rfl
  deleted := rfl
  body := rfl
  attachments := rfl
  root := nofun
  above := fun _ hsome => ⟨row, (mem_leafRows_iff.mp h.leaf).1, rfl, Option.some.inj hsome ▸ h.text, rfl⟩

theorem Tables.Buries.records {before after : Tables} {doc : String} {rev : RevId} {revision : Revision}
    (h : before.Buries doc rev revision after) (shape : before.Shape)
    (hgrown : before.revisions.length < after.revisions.length) :
    ∃ child, before.Records after doc (Content.tombstone rev) child [] ∧ revision.rev = child.rev := by
  obtain ⟨row, hlive, hderives⟩ := h.below
  exact ⟨_, hlive.records shape h.healthy (hderives.grown_of_length hgrown), hderives.rev_eq⟩

/-! ### Stores -/

namespace Store

variable {store after other after' : Store} {content content' : Content} {revision revision' : Revision}

/-- A request for a revision of some content, and what it answers. -/
inductive Authored (store : Store) : Content → Revision → Store → Prop
  | create {doc : Option String} {body : Bytes} {attachments : List NewAttachment} {revision : Revision} {after : Store}
    (h : create doc body attachments store = .ok revision after) :
    Authored store ⟨none, false, body, Attachment.digests (attachments.map (·.stored 1))⟩ revision after
  | update {doc : String} {expected : RevId} {body : Bytes} {changes : AttachmentChanges} {parent revision : Revision}
    {after : Store} (hparent : store.read doc (some expected) = .ok parent)
    (h : update doc expected body changes store = .ok revision after) :
    Authored store ⟨some expected, false, body,
      Attachment.digests (changes.applied parent.attachments (expected.generation + 1))⟩ revision after
  | delete {doc : String} {rev : RevId} {revision : Revision} {after : Store}
    (h : delete doc rev store = .ok revision after) : Authored store (Content.tombstone rev) revision after

/-- The id of a stored revision can be derived again from what is read: from the parent it stands below, its flag, its body and its attachments. -/
def Authentic (store : Store) (revision : Revision) : Prop :=
  store.read revision.doc (some revision.rev) = .ok revision ∧
    ∃ parent : Option Revision, (∀ above ∈ parent, store.read revision.doc (some above.rev) = .ok above) ∧
      revision.parent = parent.map (·.sequence) ∧
      revision.rev = RevId.derive (parent.map (·.rev)) revision.deleted revision.body
        (Attachment.digests revision.attachments)

/-- What is answered has the id of the content and is stored, and a row that was added is that of the content. -/
theorem Authored.records (healthy : store.writer.database.tables.Healthy) (h : store.Authored content revision after) :
    after.closed = false ∧ after.writer.database.tables.Has revision ∧ revision.rev = content.rev ∧
      (store.writer.database.tables.revisions.length < after.writer.database.tables.revisions.length →
        ∃ (before : Tables) (child : NewRevision) (attached : List Attachment), before.Records after.writer.database.tables
          revision.doc content child attached ∧ revision.rev = child.rev) := by
  cases h with
  | create h =>
    obtain ⟨hopen, writer, hwriter, -, rfl⟩ := execute_ok_iff.mp h
    obtain ⟨doc, draft, -, hwork, htables⟩ := Action.create_ok hwriter
    obtain ⟨hhas, rfl⟩ := Edit.create_has healthy hwork
    obtain ⟨child, hrecords, hrev⟩ := Edit.create_records healthy hwork
    rw [← htables] at hhas hrecords
    exact ⟨hopen, hhas, hrev.trans hrecords.rev, fun _ => ⟨_, child, _, hrecords, hrev⟩⟩
  | update hparent h =>
    obtain ⟨hopen, writer, hwriter, -, rfl⟩ := execute_ok_iff.mp h
    obtain ⟨draft, hwork, htables⟩ := Action.update_ok hwriter
    obtain ⟨hhas, rfl⟩ := Edit.update_has healthy hwork
    obtain ⟨hrev, hgrown⟩ := Edit.update_records healthy ((read_iff hopen).mp hparent) hwork
    rw [← htables] at hhas hgrown
    refine ⟨hopen, hhas, hrev, fun hlength => ?_⟩
    obtain ⟨child, hrecords⟩ := hgrown hlength
    exact ⟨_, child, _, hrecords⟩
  | delete h =>
    obtain ⟨hopen, writer, hwriter, -, rfl⟩ := execute_ok_iff.mp h
    have hburied := Action.delete_buries healthy hwriter
    refine ⟨hopen, hburied.has, hburied.rev_eq, fun hlength => ?_⟩
    obtain ⟨child, hrecords⟩ := hburied.records healthy.shape hlength
    exact ⟨_, child, _, hburied.home.symm ▸ hrecords⟩

/-- A revision that a store has made itself and added has the id that is derived from what is stored of it, and any store that is asked for the same content answers the same id. -/
theorem Onward.authored_authentic {config config' : Config} {blobs blobs' : BlobStore}
    (h : (openWith config blobs).Onward store) (hauthored : store.Authored content revision after)
    (hgrown : store.writer.database.tables.revisions.length < after.writer.database.tables.revisions.length) :
    after.Authentic revision ∧
      content.Alike ⟨content.parent, revision.deleted, revision.body, Attachment.digests revision.attachments⟩ ∧
      ((openWith config' blobs').Onward other → other.Authored content' revision' after' → content.Alike content' →
        revision'.rev = revision.rev) := by
  obtain ⟨-, healthy, -⟩ := h.preserved rfl healthy_empty
  obtain ⟨hopen, hhas, hrev, hrecords⟩ := hauthored.records healthy
  obtain ⟨before, child, attached, hrecords, hchild⟩ := hrecords hgrown
  obtain ⟨halike, hnames, hparent⟩ := hrecords.alike hhas rfl hchild
  have hdigests : ((Attachment.digests revision.attachments).map (·.1)).Nodup := by
    rw [Attachment.digests, List.map_map]
    exact hnames
  have hcontent : (content.attachments.map (·.1)).Nodup := ((halike.attachments.map _).nodup_iff).mpr hdigests
  refine ⟨⟨(read_iff hopen).mpr hhas, ?_⟩, halike, fun hother hagain hsame => ?_⟩
  · have hderived := hrev.trans (halike.rev_eq hcontent)
    cases hof : content.parent with
    | none =>
      rw [hof] at hderived
      exact ⟨none, nofun, hparent.trans (hrecords.root hof), hderived⟩
    | some rev =>
      obtain ⟨parent, hstored, hhome, hname, hplace⟩ := hrecords.parent_has hof
      rw [hof, ← hname] at hderived
      refine ⟨some parent, fun above habove => ?_, hparent.trans hplace, hderived⟩
      obtain rfl := Option.some.inj habove
      rw [← hhome]
      exact (read_iff hopen).mpr hstored
  · obtain ⟨-, healthy', -⟩ := hother.preserved rfl healthy_empty
    obtain ⟨-, -, hrev', -⟩ := hagain.records healthy'
    rw [hrev', hrev, hsame.rev_eq hcontent]

/-- Two stores, one of which holds another document besides, make one update. -/
theorem authored_authentic_update :
    let rev : RevId := ⟨1, "a", by decide, by decide⟩
    let item : Graft := { doc := "d", history := [rev], body := some Body.empty }
    let store := stateAfter (graftAll [item]) (new {})
    let other := stateAfter (graftAll [{ doc := "e", history := [rev] }, item]) (new {})
    let changes : AttachmentChanges := ⟨[.plain "x" "text/plain" [1]], []⟩
    ∃ revision after revision' after', update "d" rev Body.empty changes store = .ok revision after ∧
      update "d" rev Body.empty changes other = .ok revision' after' ∧ after.Authentic revision ∧
      revision'.rev = revision.rev := by
  intro rev item store other changes
  have hstart : (openWith {} {}).Onward store := .graftAll [item] .start
  have hstart' : (openWith {} {}).Onward other := .graftAll _ .start
  obtain ⟨revision, hupdate⟩ := exists_ok_of_succeeds
    (show succeeds (update "d" rev Body.empty changes) store = true by decide +kernel)
  obtain ⟨revision', hupdate'⟩ := exists_ok_of_succeeds
    (show succeeds (update "d" rev Body.empty changes) other = true by decide +kernel)
  have hgrown : store.writer.database.tables.revisions.length
      < (stateAfter (update "d" rev Body.empty changes) store).writer.database.tables.revisions.length := by decide +kernel
  have hread : ∀ held ∈ [store, other], (held.read "d" (some rev)).map (·.attachments) = .ok [] := by decide +kernel
  have hparent : ∀ held ∈ [store, other], ∃ parent, held.read "d" (some rev) = .ok parent ∧ parent.attachments = [] := by
    intro held hheld
    have hplain := hread held hheld
    cases hfound : held.read "d" (some rev) with
    | error error =>
      rw [hfound] at hplain
      nomatch hplain
    | ok parent =>
      rw [hfound] at hplain
      exact ⟨parent, rfl, Except.ok.inj hplain⟩
  obtain ⟨⟨parent, hparent, hplain⟩, ⟨parent', hparent', hplain'⟩, -⟩ := List.forall_mem_cons.mp hparent |>.imp_right
    List.forall_mem_cons.mp
  obtain ⟨hauthentic, -, hagain⟩ := hstart.authored_authentic (.update hparent hupdate) hgrown
  refine ⟨revision, _, revision', _, hupdate, hupdate', hauthentic, hagain hstart' (.update hparent' hupdate') ?_⟩
  rw [hplain, hplain']
  exact ⟨rfl, rfl, rfl, .refl _⟩

end Store

end RevisionForest
