import RevisionForest.Proofs.Ancestry
import RevisionForest.Proofs.Stock
import RevisionForest.Replication
/-!
# What is sent

A leaf is sent with its whole history, its flag and what is stocked of its content. All of it was checked before it was stored, so every receiver has to admit it: the history of a stored revision has no gap, its body is valid, and its attachments are named and have their data (`Store.Orderly.parcel_ok`). What is sent of a document is one such graft for each of its leaves (`Store.Orderly.packDocument_ok`).
-/

namespace RevisionForest

/-- An admissible graft that is made of a leaf of a store. -/
structure Graft.Carries (item : Graft) (tables : Tables) (row : RevisionRow) : Prop extends item.Admissible where
  home : tables.documentNumber? item.doc = some row.document
  deleted : item.deleted = row.deleted
  tip : ∃ rev, row.Reads rev ∧ tables.revisionHistory item.doc rev = .ok item.history ∧ item.history.getLast? = some rev

/-- A graft that carries a leaf with its content: nothing if it is a stub, else its body and its attachments with their data. -/
structure Graft.Conveys (item : Graft) (source : Store) (row : RevisionRow) : Prop
    extends item.Carries source.writer.database.tables row where
  body : item.body = if row.available then some row.body else none
  attachments : ∃ described, source.writer.database.tables.attachmentsFor row.sequence = .ok described ∧
    List.Forall₂ (fun attachment packed => source.packAttachment attachment = .ok packed)
      (if row.available then described else []) item.attachments

theorem carries_of_conveys {source : Store} {rows : List RevisionRow} {items : List Graft}
    (h : List.Forall₂ (fun row item => item.Conveys source row) rows items) :
    List.Forall₂ (fun row item => item.Carries source.writer.database.tables row) rows items :=
  h.imp fun _ _ hconveys => hconveys.toCarries

namespace Store

/-- What holds of every store that began empty and has lost no blob. -/
structure Orderly (store : Store) : Prop where
  opened : store.closed = false
  rest : store.AtRest
  healthy : store.writer.database.tables.Healthy
  graded : store.writer.database.tables.Graded
  inhabited : store.writer.database.tables.Inhabited
  stocked : store.writer.holdings.Stocked

theorem Networked.orderly {store : Store} (h : store.Networked) : store.Orderly := by
  obtain ⟨hrest, healthy⟩ := h.reachable.healthy
  obtain ⟨config, blobs, honward⟩ := h.reachable.onward
  exact ⟨h.opened, hrest, healthy, honward.graded, honward.inhabited, h.stocked⟩

open Tables

variable {source : Store} {doc : String} {number : Int} {attachment : Attachment} {attachments : List Attachment}
  {leaf : Revision} {history : List RevId} {row : RevisionRow}

/-! ### Attachments -/

theorem packAttachment_ok_iff {packed : NewAttachment} :
    source.packAttachment attachment = .ok packed ↔
      ∃ data, source.writer.blobs.find? attachment.digest = some data ∧
        packed = ⟨attachment.name, attachment.contentType, attachment.encoding, attachment.length, data⟩ := by
  simp only [packAttachment, except_bind_ok_iff, blob, mapError_ok_iff, BlobStore.get, pure, Except.pure, Except.ok.injEq]
  cases source.writer.blobs.find? attachment.digest with
  | none => simp
  | some data => simp [eq_comm]

theorem packAttachments_ok (hstocked : ∀ attachment ∈ attachments, attachment.StockedIn source.writer.blobs)
    (hdistinct : (attachments.map (·.name)).Nodup) :
    ∃ packed, attachments.mapM source.packAttachment = .ok packed ∧
      List.Forall₂ (fun attachment packed => source.packAttachment attachment = .ok packed) attachments packed ∧
      Attachment.checkNames [] packed = .ok () := by
  have hdata : ∀ attachment ∈ attachments, ∃ packed, source.packAttachment attachment = .ok packed := by
    intro attachment hmem
    obtain ⟨data, hfind⟩ := Option.isSome_iff_exists.mp (hstocked attachment hmem).2
    exact ⟨_, packAttachment_ok_iff.mpr ⟨data, hfind, rfl⟩⟩
  obtain ⟨packed, hpacked⟩ := mapM_ok_of_forall hdata
  have hpairs := mapM_ok_iff.mp hpacked
  have hname : ∀ attachment packed, source.packAttachment attachment = .ok packed → attachment.name = packed.name := by
    intro attachment packed h
    obtain ⟨_, _, rfl⟩ := packAttachment_ok_iff.mp h
    rfl
  refine ⟨packed, hpacked, hpairs, Attachment.checkNames_ok_iff.mpr ⟨?_, fun new hnew => ⟨?_, List.not_mem_nil⟩⟩⟩
  · rwa [← map_eq_of_forall₂ hpairs hname]
  · obtain ⟨attachment, hmem, hsame⟩ := exists_mem_left hpairs hnew
    rw [← hname attachment new hsame]
    exact (hstocked attachment hmem).1

/-! ### Leaves -/

theorem pack_ok (hhistory : source.revisionHistory leaf.doc leaf.rev = .ok history)
    (hstocked : ∀ attachment ∈ leaf.attachments, attachment.StockedIn source.writer.blobs)
    (hdistinct : (leaf.attachments.map (·.name)).Nodup) :
    ∃ item, source.pack leaf = .ok item ∧ (item.doc = leaf.doc ∧ item.history = history ∧ item.deleted = leaf.deleted) ∧
      (item.body = if leaf.available then some leaf.body else none) ∧
      List.Forall₂ (fun attachment packed => source.packAttachment attachment = .ok packed)
        (if leaf.available then leaf.attachments else []) item.attachments ∧
      Attachment.checkNames [] item.attachments = .ok () := by
  unfold pack
  rw [hhistory]
  cases havailable : leaf.available with
  | false => exact ⟨_, rfl, ⟨rfl, rfl, rfl⟩, rfl, .nil, rfl⟩
  | true =>
    obtain ⟨packed, hpacked, hpairs, hnames⟩ := packAttachments_ok hstocked hdistinct
    refine ⟨{ doc := leaf.doc, history, deleted := leaf.deleted, body := some leaf.body, attachments := packed }, ?_,
      ⟨rfl, rfl, rfl⟩, rfl, hpairs, hnames⟩
    simp only [↓reduceIte, hpacked]
    rfl

/-- A leaf is sent as a graft that every store takes, with its content. -/
theorem Orderly.parcel_ok (orderly : source.Orderly)
    (hnumber : source.writer.database.tables.documentNumber? doc = some number)
    (hrow : row ∈ source.writer.database.tables.leafRows number)
    (hread : source.writer.database.tables.readRevision doc row = .ok leaf) :
    ∃ item, source.pack leaf = .ok item ∧ item.Conveys source row := by
  have healthy := orderly.healthy
  obtain ⟨hmem, rfl, -⟩ := mem_leafRows_iff.mp hrow
  obtain ⟨rev, hreads⟩ := healthy.legible.revisions row hmem
  obtain ⟨attachments, hattachments, hsame⟩ := healthy.legible.readRevision_ok hreads doc
  rw [hread, Except.ok.injEq] at hsame
  have hfields : leaf.doc = doc ∧ leaf.rev = rev ∧ leaf.deleted = row.deleted ∧ leaf.available = row.available ∧
      leaf.body = row.body ∧ leaf.attachments = attachments := by
    rw [hsame]
    exact ⟨rfl, rfl, rfl, rfl, rfl, rfl⟩
  clear hsame
  obtain ⟨rfl, rfl, hkind, hthere, hcontent, rfl⟩ := hfields
  obtain ⟨line, history, hhistory, hancestry, hlast⟩ := healthy.ancestry_ok orderly.graded hmem hnumber hreads.1
  obtain ⟨hstocked, hdistinct⟩ := orderly.stocked.attachmentsFor healthy hattachments
  have hnamed : isBlankId leaf.doc = false := healthy.shape.named _ (healthy.shape.documentNumber?_eq_some_iff.mp hnumber)
  obtain ⟨item, hpack, ⟨hdoc, rfl, hdeleted⟩, hbody, hpairs, hnames⟩ :=
    pack_ok (ask_of_open orderly.opened hhistory) hstocked hdistinct
  rw [hthere, hcontent] at hbody
  rw [hthere] at hpairs
  rw [← hdoc] at hnamed hnumber hhistory
  refine ⟨item, hpack, ⟨⟨?_, hnamed, fun older holder => ?_⟩, hnumber, hdeleted.trans hkind, leaf.rev, hreads, hhistory,
    hlast⟩, hbody, _, hattachments, hpairs⟩
  · refine (hancestry.check_iff hnamed).mpr ⟨fun body hsome => ?_, hnames⟩
    have hsent : row.available = true ∧ row.body = body := by simpa using hbody.symm.trans hsome
    rw [← hsent.2]
    exact orderly.stocked.bodies row.bare (mem_bones_iff.mpr ⟨row, hmem, rfl⟩)
  · obtain ⟨other, -, hother⟩ := exists_mem_left hancestry.reads holder
    exact hother.2

theorem Orderly.packDocument_ok (orderly : source.Orderly)
    (hnumber : source.writer.database.tables.documentNumber? doc = some number) :
    ∃ items, source.packDocument doc = .ok items ∧
      List.Forall₂ (fun row item => item.Conveys source row) (source.writer.database.tables.leafRows number) items := by
  have hdocument := orderly.healthy.shape.documentNumber?_eq_some_iff.mp hnumber
  obtain ⟨leaves, hleaves, hread⟩ :=
    leaves_ok orderly.opened orderly.healthy hnumber (orderly.inhabited.exists_row hdocument)
  obtain ⟨items, hitems, hconveys⟩ := mapM_ok_of_forall₂ hread fun row hrow leaf => orderly.parcel_ok hnumber hrow
  refine ⟨items, ?_, hconveys⟩
  simp only [packDocument, hleaves]
  exact hitems

end Store

end RevisionForest
