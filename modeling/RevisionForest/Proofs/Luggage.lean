import RevisionForest.Proofs.Backing
import RevisionForest.Proofs.Copies
import RevisionForest.Proofs.Descriptions
/-!
# The attachments of a copy

What is sent of an attachment is its description, without what the store has counted itself, and the data under its digest. The receiver writes the data and describes it anew. The digest is that of the data, so it comes out the same, and the data can be read there, unless the receiver had other data of the same digest before (`BlobStore.Agrees`). The length in the blob store is counted again, so it comes out the same if the data of the source are those that were described.

But nothing is sent of the generation that brought the data. The receiver takes that of the revision that it was sent with, so what was carried over from an earlier revision counts as new there (`Network.replicate_attachments`).
-/

namespace RevisionForest

open Tables

/-! ### Blobs -/

namespace BlobStore

variable {known : List Bytes} {store before after : BlobStore}

/-- Two blob stores hold nothing different under one digest. -/
def Agrees (store other : BlobStore) : Prop :=
  ∀ digest bytes bytes', store.find? digest = some bytes → other.find? digest = some bytes' → bytes = bytes'

theorem agrees_of_nil (hnone : after.blobs = []) : store.Agrees after := by
  intro digest bytes bytes' _ hfind
  exact absurd (hfind.symm.trans (find?_of_nil hnone digest)) (Option.some_ne_none bytes')

theorem Written.agrees (h : Written known before after)
    (hknown : ∀ bytes ∈ known, store.find? (Digest.of bytes) = some bytes) (hagrees : store.Agrees before) :
    store.Agrees after := by
  induction h with
  | refl => exact hagrees
  | tail _ hlast ih =>
    obtain ⟨data, hdata, rfl⟩ := hlast
    rcases stateAfter_put data _ with hsame | ⟨-, hfind⟩
    · rwa [hsame]
    · intro digest bytes bytes' hthere hstored
      rw [hfind, find?_insert] at hstored
      split at hstored
      · rename_i hnew
        rw [← hnew.2, hknown data hdata] at hthere
        exact (Option.some.inj hthere).symm.trans (Option.some.inj hstored)
      · exact ih digest bytes bytes' hthere hstored

end BlobStore

theorem Store.Ready.graftEach_written {store : Store} {items : List Graft} {known : List Bytes} (ready : store.Ready)
    (hitems : ∀ item ∈ items, item.Admissible)
    (hknown : ∀ item ∈ items, ∀ attachment ∈ item.attachments, attachment.data ∈ known) :
    store.writer.blobs.Written known (graftEach items store).2.writer.blobs := by
  induction items generalizing store with
  | nil => exact .refl
  | cons item rest ih =>
    obtain ⟨found, draft, hwork, hgraft, hafter⟩ := ready.graft_ok (hitems item List.mem_cons_self)
    have hfirst : store.writer.blobs.Written known draft.blobs := by
      have hwritten : store.writer.blobs.Written known (stateAfter (Edit.graft item)
          ⟨store.writer.database.tables, store.writer.blobs, []⟩).blobs :=
        Edit.graft_writes (hknown item List.mem_cons_self) store.writer.blobs .refl
      rwa [stateAfter_of_ok hwork] at hwritten
    rw [graftEach_of_ok hgraft]
    exact hfirst.trans (ih hafter (fun other hother => hitems other (List.mem_cons_of_mem _ hother))
      fun other hother => hknown other (List.mem_cons_of_mem _ hother))

namespace Store

variable {source copy : Store} {supplied : List Bytes} {doc : String} {items : List Graft} {tree : Pedigree}

theorem Orderly.exists_leafRow (orderly : source.Orderly) {leaves : List Revision} {leaf : Revision}
    (hleaves : source.leaves doc = .ok leaves) (hleaf : leaf ∈ leaves) :
    ∃ number, source.writer.database.tables.documentNumber? doc = some number ∧
      ∃ row ∈ source.writer.database.tables.leafRows number,
        source.writer.database.tables.readRevision doc row = .ok leaf := by
  have healthy := orderly.healthy
  cases hnumber : source.writer.database.tables.documentNumber? doc with
  | none =>
    have hnothing := leafContents_of_absent orderly.opened hnumber
    rw [leafContents, hleaves] at hnothing
    cases hnothing
  | some number =>
    have hdocument := healthy.shape.documentNumber?_eq_some_iff.mp hnumber
    obtain ⟨found, hfound, hpairs⟩ :=
      Store.leaves_ok orderly.opened healthy hnumber (orderly.inhabited.exists_row hdocument)
    obtain rfl := Except.ok.inj (hleaves.symm.trans hfound)
    obtain ⟨row, hrow, hread⟩ := exists_mem_left hpairs hleaf
    exact ⟨number, rfl, row, hrow, hread⟩

theorem blob_ok_iff {digest : Digest} {bytes : Bytes} :
    source.blob digest = .ok bytes ↔ source.writer.blobs.find? digest = some bytes := by
  rw [blob, mapError_ok_iff, BlobStore.get]
  cases source.writer.blobs.find? digest with
  | none => simp
  | some found => simp

/-- How an attachment of a revision is handed over to another store: with its data, and with its description but for the generation, which is that of the revision. The length in the blob store is counted again. -/
structure HandsOver (source target : Store) (supplied : List Bytes) (doc : String) (rev : RevId)
    (original copy : Attachment) : Prop where
  description : copy = { original with encodedLength := copy.encodedLength, revpos := rev.generation }
  counted : Digest.CollisionFree supplied → copy.encodedLength = original.encodedLength
  data : ∃ bytes, source.attachment doc rev original.name = .ok (original, bytes) ∧
    target.attachment doc rev copy.name = .ok (copy, bytes)

/-- What a revision has brought itself arrives as it was. -/
theorem HandsOver.eq_iff {target : Store} {rev : RevId} {original copy : Attachment}
    (h : source.HandsOver target supplied doc rev original copy) (hfree : Digest.CollisionFree supplied) :
    copy = original ↔ original.revpos = rev.generation := by
  constructor
  · intro hsame
    have hrevpos : copy.revpos = rev.generation := congrArg Attachment.revpos h.description
    rwa [hsame] at hrevpos
  · intro hbrought
    rw [h.description, h.counted hfree, ← hbrought]

theorem hands_over_eq_iff {target : Store} {rev : RevId} {originals copies : List Attachment}
    (h : List.Forall₂ (source.HandsOver target supplied doc rev) originals copies) (hfree : Digest.CollisionFree supplied) :
    copies = originals ↔ ∀ attachment ∈ originals, attachment.revpos = rev.generation := by
  induction h with
  | nil => simp
  | cons hfirst _ ih => rw [List.cons_eq_cons, List.forall_mem_cons, hfirst.eq_iff hfree, ih]

theorem Fed.hands_over {leaves : List Revision} {leaf : Revision} (h : source.Fed supplied)
    (hsends : source.Sends items) (hcopied : copy.writer.database.tables.Copied source items tree doc)
    (hopen : copy.closed = false) (hstocked : copy.writer.holdings.Stocked)
    (hagrees : source.writer.blobs.Agrees copy.writer.blobs) (hleaves : source.leaves doc = .ok leaves)
    (hleaf : leaf ∈ leaves) (havailable : leaf.available = true) :
    ∃ copied, copy.attachments doc leaf.rev = .ok copied ∧
      List.Forall₂ (source.HandsOver copy supplied doc leaf.rev) leaf.attachments copied := by
  have orderly := h.networked.orderly
  have healthy := orderly.healthy
  obtain ⟨number', hnumber', row, hrow, hread⟩ := orderly.exists_leafRow hleaves hleaf
  obtain ⟨hmem, hhome, -⟩ := mem_leafRows_iff.mp hrow
  obtain ⟨rev, hreads⟩ := healthy.legible.revisions row hmem
  obtain ⟨attachments, hattachments, hsame⟩ := healthy.legible.readRevision_ok hreads doc
  obtain rfl := Except.ok.inj (hread.symm.trans hsame)
  -- The leaf of the copy was sent for the leaf of the same id.
  obtain ⟨number, hnumber, -⟩ := (hcopied.knows rev).mpr
    ⟨number', hnumber', row.bare, mem_bones_iff.mpr ⟨row, hmem, rfl⟩, hhome, hreads.1⟩
  obtain ⟨tip, htip, htext, -⟩ := (hcopied.leaf_iff healthy hnumber hnumber').mpr ⟨row, hrow, hreads.1, rfl⟩
  obtain ⟨item, other, same, rfl, hconvey, hother, hagain, hname, -, hdescribed⟩ :=
    hcopied.leaf healthy h.networked.candid hsends hnumber htip
  obtain rfl := RevId.text_injective (htext.symm.trans hname)
  obtain rfl := Option.some.inj (hconvey.home.symm.trans hnumber')
  obtain rfl := healthy.shape.eq_of_revText hmem (mem_leafRows_iff.mp hother).1 hhome (hreads.1.trans hagain.1.symm)
  obtain ⟨sent, hsent, hpacked⟩ := hconvey.attachments
  obtain rfl := Except.ok.inj (hattachments.symm.trans hsent)
  rw [if_pos havailable] at hpacked
  have hnames : attachments.map (·.name) = item.attachments.map (·.name) := by
    refine map_eq_of_forall₂ hpacked fun original packed hpack => ?_
    obtain ⟨_, -, rfl⟩ := packAttachment_ok_iff.mp hpack
    rfl
  -- They are sent in order of their names, and so they are read off the copy in the same order.
  have hsorted : (item.attachments.map (·.stored rev.generation)).Pairwise fun left right => left.name ≤ right.name := by
    have hlisted := List.pairwise_map.mpr (healthy.legible.attachmentsFor_sorted hattachments)
    rw [hnames, List.pairwise_map] at hlisted
    exact List.pairwise_map.mpr hlisted
  have hread := attachmentsFor_of_described hdescribed hsorted
  obtain ⟨hmem', hhome', -⟩ := mem_leafRows_iff.mp htip
  have hcopied' := attachments_of_row hopen hcopied.healthy hnumber hmem' hhome' htext hread
  have hlisted := attachments_of_row orderly.opened healthy hnumber' hmem hhome hreads.1 hattachments
  obtain ⟨hthere, hdistinct⟩ := hstocked.attachmentsFor hcopied.healthy hread
  obtain ⟨described, hdescribed', hrows⟩ := healthy.legible.attachmentsFor_ok row.sequence
  obtain rfl := Except.ok.inj (hattachments.symm.trans hdescribed')
  refine ⟨_, hcopied', List.forall₂_map_right_iff.mpr ((forall₂_with_mem hpacked).imp ?_)⟩
  rintro original packed ⟨horiginal, hsent, hpack⟩
  have hstored := List.mem_of_mem_filter (hrows.subset (List.mem_map_of_mem horiginal))
  obtain ⟨bytes, hblob, hdigest, hlength⟩ := h.blob_ok hstored rfl
  obtain ⟨data, hdata, rfl⟩ := packAttachment_ok_iff.mp hpack
  obtain rfl := Option.some.inj (hdata.symm.trans (blob_ok_iff.mp hblob))
  have hmade := List.mem_map_of_mem (f := (·.stored rev.generation)) hsent
  obtain ⟨kept, hkept⟩ := Option.isSome_iff_exists.mp (hthere _ hmade).2
  rw [NewAttachment.stored, NewAttachment.digest, hdigest] at hkept
  obtain rfl := hagrees original.digest data kept hdata hkept
  refine ⟨?_, hlength, data, attachment_of_listed hlisted (healthy.nodup_names hattachments) horiginal hblob, ?_⟩
  · simp only [NewAttachment.stored, NewAttachment.digest, hdigest]
  · refine attachment_of_listed hcopied' hdistinct hmade (blob_ok_iff.mpr ?_)
    rwa [NewAttachment.stored, NewAttachment.digest, hdigest]

end Store

namespace Network

variable {n : Nat} {network : Network n} {source target : Fin n} {supplied : List Bytes}

/-- A replication hands over the attachments of all leaves that are available, described as they were exactly if each of them was brought by the leaf itself. -/
theorem replicate_attachments (hsource : (network.store source).Fed supplied)
    (htarget : (network.store target).Networked) (hblobs : (network.store target).writer.blobs.budget = none)
    (hempty : (network.store target).writer.database.tables.documents = [])
    (hagrees : (network.store source).writer.blobs.Agrees (network.store target).writer.blobs) :
    ∃ moved after, replicate source target network = .ok moved after ∧
      ∀ doc leaves, (network.store source).leaves doc = .ok leaves → ∀ leaf ∈ leaves, leaf.available = true →
        ∃ copied, (after.store target).attachments doc leaf.rev = .ok copied ∧
          List.Forall₂ ((network.store source).HandsOver (after.store target) supplied doc leaf.rev)
            leaf.attachments copied ∧
          (Digest.CollisionFree supplied → (copied = leaf.attachments ↔
            ∀ attachment ∈ leaf.attachments, attachment.revpos = leaf.rev.generation)) := by
  have orderly := hsource.networked.orderly
  have ready : (network.holder target).Ready :=
    ⟨htarget.orderly.opened, htarget.orderly.rest, htarget.orderly.healthy, hblobs⟩
  obtain ⟨moved, items, hsends, hresult, hafter, hcopied⟩ := orderly.copied ready hempty
  have hadmissible := admissible_of_carries (carries_of_conveys hsends)
  refine ⟨moved, network.install target _, replicate_of_ok hresult, fun doc leaves hleaves leaf hleaf havailable => ?_⟩
  rw [install_store, if_pos rfl]
  -- All that is written was read under its digest at the source.
  have hsent : ∀ item ∈ items, ∀ attachment ∈ item.attachments,
      attachment.data ∈ (items.flatMap (·.attachments)).map (·.data) := by
    intro item hitem attachment hattachment
    exact List.mem_map_of_mem (List.mem_flatMap_of_mem hitem hattachment)
  have hread : ∀ data ∈ (items.flatMap (·.attachments)).map (·.data),
      (network.store source).writer.blobs.find? (Digest.of data) = some data := by
    intro data hdata
    obtain ⟨attachment, hattachment, rfl⟩ := List.mem_map.mp hdata
    obtain ⟨item, hitem, hpacked⟩ := List.mem_flatMap.mp hattachment
    obtain ⟨row, -, hconvey⟩ := exists_mem_left hsends hitem
    obtain ⟨described, -, hpairs⟩ := hconvey.attachments
    obtain ⟨original, -, hpack⟩ := exists_mem_left hpairs hpacked
    obtain ⟨bytes, hfound, rfl⟩ := Store.packAttachment_ok_iff.mp hpack
    rw [(hsource.addressed original.digest bytes hfound).1, hfound]
  have hagrees' := (ready.graftEach_written hadmissible hsent).agrees hread hagrees
  obtain ⟨-, -, hfurnished⟩ := Store.graftEach_follows covers_furnished items ready.rest
  obtain ⟨-, hstocked⟩ := hfurnished ready.healthy ⟨htarget.orderly.stocked.bodies, htarget.orderly.stocked.attachments⟩
  obtain ⟨copied, hcopies, hpairs⟩ :=
    hsource.hands_over hsends (hcopied doc) hafter.opened hstocked hagrees' hleaves hleaf havailable
  exact ⟨copied, hcopies, hpairs, Store.hands_over_eq_iff hpairs⟩

/-- The leaf has brought its attachment itself, with data that are encoded. -/
theorem replicate_attachments_brought :
    let tip : RevId := ⟨2, "b", by decide, by decide⟩
    let item : Graft :=
      { doc := "d", history := [⟨1, "a", by decide, by decide⟩, tip], body := some Body.empty,
        attachments := [⟨"x", "text/css", .gzip, 9, [2, 3]⟩] }
    let source := stateAfter (Store.submit (.mutate (.graft item))) (.new {})
    let network : Network 2 := ⟨#v[source, .new {}], 0⟩
    ∃ after leaf, replicate 0 1 network = .ok ⟨1, 1, 0⟩ after ∧ source.leaves "d" = .ok [leaf] ∧
      leaf.attachments.map (·.revpos) = [2] ∧ (after.store 1).attachments "d" tip = .ok leaf.attachments := by
  intro tip item source network
  have hsource : (network.store 0).Fed [[2, 3]] :=
    ⟨by decide +kernel, {}, {}, BlobStore.addressed_of_nil rfl, .command _ ⟨trivial, List.Subset.refl _⟩ .start⟩
  have htarget : (network.store 1).Networked := ⟨rfl, {}, {}, .start⟩
  have hfree : Digest.CollisionFree [[2, 3]] := by decide +kernel
  obtain ⟨moved, after, hresult, hcopies⟩ :=
    replicate_attachments hsource htarget rfl rfl (BlobStore.agrees_of_nil rfl)
  have hmoved : (match replicate 0 1 network with
      | .ok moved _ => some moved
      | .error _ _ => none) = some ⟨1, 1, 0⟩ := by decide +kernel
  rw [hresult] at hmoved
  obtain rfl := Option.some.inj hmoved
  have hleaves : (source.leaves "d").map (·.map fun leaf => (leaf.rev, leaf.available, leaf.attachments.map (·.revpos)))
      = .ok [(tip, true, [2])] := by decide +kernel
  obtain ⟨leaf, hlisted, hleaf⟩ : ∃ leaf, source.leaves "d" = .ok [leaf] ∧
      (leaf.rev, leaf.available, leaf.attachments.map (·.revpos)) = (tip, true, [2]) := by
    cases hlisted : source.leaves "d" with
    | error error =>
      rw [hlisted] at hleaves
      nomatch hleaves
    | ok leaves =>
      rw [hlisted] at hleaves
      obtain ⟨leaf, rfl, hleaf⟩ := List.map_eq_singleton_iff.mp (Except.ok.inj hleaves)
      exact ⟨leaf, rfl, hleaf⟩
  simp only [Prod.mk.injEq] at hleaf
  obtain ⟨hrev, havailable, hrevpos⟩ := hleaf
  obtain ⟨copied, hcopied, -, hiff⟩ := hcopies "d" [leaf] hlisted leaf List.mem_cons_self havailable
  have hsame : copied = leaf.attachments := (hiff hfree).mpr fun attachment hmem => by
    have hgeneration := List.mem_map_of_mem (f := (·.revpos)) hmem
    rw [hrevpos, List.mem_singleton] at hgeneration
    rw [hgeneration, hrev]
  rw [hrev, hsame] at hcopied
  exact ⟨after, leaf, hresult, hlisted, hrevpos, hcopied⟩

/-- An update keeps the attachment of its parent, and the copy says that the update has brought it. -/
theorem replicate_resets_revpos :
    let root : RevId := ⟨1, "a", by decide, by decide⟩
    let child := RevId.derive (some root) false Body.empty [("x", Digest.of [1])]
    let item : Graft :=
      { doc := "d", history := [root], body := some Body.empty, attachments := [.plain "x" "text/plain" [1]] }
    let source := stateAfter (Store.submit (.mutate (.update "d" root Body.empty {})))
      (stateAfter (Store.submit (.mutate (.graft item))) (.new {}))
    let network : Network 2 := ⟨#v[source, .new {}], 0⟩
    let copy := (stateAfter (replicate 0 1) network).store 1
    (source.leaves "d").map (·.map fun leaf => (leaf.rev, leaf.available, leaf.attachments.map (·.revpos)))
        = .ok [(child, true, [1])] ∧
      (copy.leaves "d").map (·.map fun leaf => (leaf.rev, leaf.available, leaf.attachments.map (·.revpos)))
        = .ok [(child, true, [2])] := by
  intro root child item source network copy
  exact ⟨by decide +kernel, by decide +kernel⟩

end Network

end RevisionForest
