import RevisionForest.Proofs.Convergence
import RevisionForest.Proofs.Permanence
/-!
# Replication settles

Stores need not share a tree to replicate with each other. What a store sends is admitted by every other one, so one replication goes through, whatever the two have done before, and takes a graft for each leaf of each document of the source. After it the target knows all these leaves and has kept what it had. But then a second replication of the same source sends only what is known, and does nothing at all (`Network.replicate_settles`).
-/

namespace RevisionForest

open Tables

namespace Tables

variable {tables : Tables}

theorem Shape.newest_perm (shape : tables.Shape) (inhabited : tables.Inhabited) :
    ((tables.newestAfter 0).map (·.document)).Perm (tables.documents.map (·.number)) := by
  refine (List.perm_ext_iff_of_nodup (shape.nodup_newest 0) shape.numbers).mpr fun number =>
    ⟨fun hmem => shape.newest_subset 0 hmem, fun hmem => ?_⟩
  obtain ⟨document, hdocument, rfl⟩ := List.mem_map.mp hmem
  obtain ⟨row, hrow, hhome⟩ := inhabited.exists_row hdocument
  obtain ⟨newest, hnewest, hsame⟩ := shape.exists_newest hrow (shape.sequence_bounds hrow).1
  exact List.mem_map.mpr ⟨newest, hnewest, hsame.trans hhome⟩

theorem Shape.newest_length (shape : tables.Shape) (inhabited : tables.Inhabited) :
    (tables.newestAfter 0).length = tables.documents.length := by
  simpa using (shape.newest_perm inhabited).length_eq

theorem Shape.leavesOf_perm (shape : tables.Shape) (inhabited : tables.Inhabited) :
    (tables.leavesOf (tables.newestAfter 0)).Perm (tables.documents.flatMap fun document => tables.leafRows document.number) := by
  have hperm := (shape.newest_perm inhabited).flatMap_right tables.leafRows
  rwa [List.flatMap_map, List.flatMap_map] at hperm

/-- The document of this name has a leaf of this id. -/
def HasLeaf (tables : Tables) (doc : String) (rev : RevId) : Prop :=
  ∃ row ∈ tables.revisions, tables.isLeaf row.sequence = true ∧ tables.documentNumber? doc = some row.document ∧ row.Reads rev

/-- The leaves of all documents of another store are known. -/
def KnowsLeaves (tables source : Tables) : Prop :=
  ∀ doc rev, source.HasLeaf doc rev → tables.Knows doc rev

theorem HasLeaf.knows {doc : String} {rev : RevId} (h : tables.HasLeaf doc rev) : tables.Knows doc rev := by
  obtain ⟨row, hrow, -, hnumber, hreads⟩ := h
  exact ⟨row.document, hnumber, row.bare, mem_bones_iff.mpr ⟨row, hrow, rfl⟩, rfl, hreads.1⟩

theorem admissible_of_carries {source : Tables} {rows : List RevisionRow} {items : List Graft}
    (hcarries : List.Forall₂ (fun row item => item.Carries source row) rows items) : ∀ item ∈ items, item.Admissible := by
  intro item hitem
  obtain ⟨row, -, hcarry⟩ := exists_mem_left hcarries hitem
  exact hcarry.toAdmissible

theorem knowsLeaves_iff {source : Tables} {items : List Graft} (shape : source.Shape)
    (hcarries : List.Forall₂ (fun row item => item.Carries source row) (source.leavesOf (source.newestAfter 0)) items) :
    tables.KnowsLeaves source ↔
      ∀ item ∈ items, ∀ rev, item.history.getLast? = some rev → tables.Knows item.doc rev := by
  constructor
  · intro hknown item hitem rev hlast
    obtain ⟨row, hrow, hcarry⟩ := exists_mem_left hcarries hitem
    obtain ⟨hmem, -, hleaf⟩ := mem_leafRows_iff.mp (shape.mem_leavesOf_iff.mp hrow)
    obtain ⟨tip, hreads, -, htip⟩ := hcarry.tip
    obtain rfl := Option.some.inj (htip.symm.trans hlast)
    exact hknown item.doc tip ⟨row, hmem, hleaf, hcarry.home, hreads⟩
  · rintro hknown doc rev ⟨row, hrow, hleaf, hnumber, hreads⟩
    have hlisted := shape.mem_leavesOf_iff.mpr (mem_leafRows_iff.mpr ⟨hrow, rfl, hleaf⟩)
    obtain ⟨item, hitem, hcarry⟩ := exists_mem_right hcarries hlisted
    obtain ⟨tip, htip, -, hlast⟩ := hcarry.tip
    obtain rfl := hreads.unique htip
    rw [shape.doc_eq_of_number hnumber hcarry.home]
    exact hknown item hitem rev hlast

end Tables

namespace Store

variable {store source target : Store}

/-! ### Leaves -/

/-- The leaves of all documents. -/
def allLeaves (store : Store) : Except StoreError (List Revision) := do
  return (← store.writer.database.tables.documents.mapM fun document => store.leaves document.id).flatten

theorem Orderly.leaves_ok (orderly : store.Orderly) {document : DocumentRow}
    (hdocument : document ∈ store.writer.database.tables.documents) :
    ∃ leaves, store.leaves document.id = .ok leaves ∧
      List.Forall₂ (fun _ leaf => store.writer.database.tables.HasLeaf leaf.doc leaf.rev)
        (store.writer.database.tables.leafRows document.number) leaves := by
  have healthy := orderly.healthy
  have hnumber := healthy.shape.documentNumber?_eq_some_iff.mpr hdocument
  obtain ⟨leaves, hleaves, hread⟩ :=
    Store.leaves_ok orderly.opened healthy hnumber (orderly.inhabited.exists_row hdocument)
  have hrows := (List.forall₂_and_left _ _).mpr ⟨fun row hrow => mem_leafRows_iff.mp hrow, hread⟩
  refine ⟨leaves, hleaves, hrows.imp ?_⟩
  rintro row leaf ⟨⟨hmem, hhome, htip⟩, hsame⟩
  have hreads := healthy.legible.reads_of_readRevision hmem hsame
  obtain ⟨_, _, -, -, rfl⟩ := readRevision_ok_iff.mp hsame
  exact ⟨row, hmem, htip, hhome ▸ hnumber, hreads⟩

theorem Orderly.allLeaves_ok (orderly : store.Orderly) :
    ∃ leaves, store.allLeaves = .ok leaves ∧
      (store.writer.database.tables.leavesOf (store.writer.database.tables.newestAfter 0)).length = leaves.length ∧
      ∀ leaf ∈ leaves, store.writer.database.tables.HasLeaf leaf.doc leaf.rev := by
  have hsame : List.Forall₂ Eq store.writer.database.tables.documents store.writer.database.tables.documents :=
    List.forall₂_eq_eq_eq ▸ rfl
  obtain ⟨lists, hlists, hpairs⟩ : ∃ lists,
      (store.writer.database.tables.documents.mapM fun document => store.leaves document.id) = .ok lists ∧
        List.Forall₂ (fun document leaves => List.Forall₂ (fun _ leaf => store.writer.database.tables.HasLeaf leaf.doc leaf.rev)
            (store.writer.database.tables.leafRows document.number) leaves)
          store.writer.database.tables.documents lists := by
    refine mapM_ok_of_forall₂ hsame ?_
    rintro document hdocument _ rfl
    exact orderly.leaves_ok hdocument
  have hall := List.rel_flatten (List.forall₂_map_left_iff.mpr hpairs)
  refine ⟨lists.flatten, ?_, ?_, fun leaf hleaf => ?_⟩
  · rw [allLeaves, hlists]
    rfl
  · exact (orderly.healthy.shape.leavesOf_perm orderly.inhabited).length_eq.trans hall.length_eq
  · obtain ⟨_, -, hread⟩ := exists_mem_left hall hleaf
    exact hread

/-! ### Replications -/

/-- A replication goes through, and its pages end by themselves. -/
theorem Orderly.replicates (orderly : source.Orderly) (ready : target.Ready) :
    ∃ moved after, replicateFrom source target = .ok moved after ∧
      (∀ pages, source.writer.database.tables.documents.length < pages →
        replicatePages source pages 0 {} target = .ok moved after) ∧
      (moved.documents = source.writer.database.tables.documents.length ∧
        moved.inserted + moved.alreadyPresent
          = (source.writer.database.tables.leavesOf (source.writer.database.tables.newestAfter 0)).length) ∧
      after.Ready ∧ after.writer.database.tables.KnowsLeaves source.writer.database.tables ∧
      target.writer.database.tables.RetainsAll after.writer.database.tables := by
  obtain ⟨items, hsends, hreplicate⟩ := orderly.replicateFrom_eq
  have hcarries := carries_of_conveys hsends
  obtain ⟨hnone, happlied, hafter, hknown⟩ := ready.graftEach_ok (admissible_of_carries hcarries)
  obtain ⟨hresult, hpages⟩ := hreplicate target ready.opened hnone
  have hretains := graftEach_follows_of (course_retains fun _ _ => False) (fun item => Edit.graft_retains) items ready.rest
  refine ⟨_, _, hresult, fun pages hmore => (hpages pages hmore).trans hresult, ⟨?_, ?_⟩, hafter, ?_, ?_⟩
  · exact orderly.healthy.shape.newest_length orderly.inhabited
  · -- Each leaf is one item of the batch, and each item is counted once.
    rw [hcarries.length_eq]
    exact happlied
  · exact (knowsLeaves_iff orderly.healthy.shape hcarries).mpr hknown
  · exact (hretains.2 ready.healthy).2

theorem Orderly.replicates_nothing (orderly : source.Orderly) (ready : target.Ready)
    (hknown : target.writer.database.tables.KnowsLeaves source.writer.database.tables) :
    replicateFrom source target = .ok
      ⟨source.writer.database.tables.documents.length, 0,
        (source.writer.database.tables.leavesOf (source.writer.database.tables.newestAfter 0)).length⟩ target := by
  obtain ⟨items, hsends, hreplicate⟩ := orderly.replicateFrom_eq
  have hcarries := carries_of_conveys hsends
  have hsent := (knowsLeaves_iff orderly.healthy.shape hcarries).mp hknown
  have hnothing := ready.graftEach_known (admissible_of_carries hcarries) hsent
  obtain ⟨hresult, -⟩ := hreplicate target ready.opened (by rw [hnothing])
  rw [hresult, hnothing, orderly.healthy.shape.newest_length orderly.inhabited, hcarries.length_eq]
  rfl

theorem Networked.elapsed (h : store.Networked) (clock : Nat) :
    Networked { store with writer := { store.writer with clock } } := by
  obtain ⟨config, blobs, hkept⟩ := h.onward
  exact ⟨h.opened, config, blobs, .besides (.apart (.elapsed clock)) hkept⟩

end Store

namespace Network

variable {n : Nat} {network : Network n} {source target : Fin n}

/-! ### Networks -/

theorem holder_install (network : Network n) (i : Fin n) (store : Store) : (network.install i store).holder i = store := by
  rw [holder, install_store, if_pos rfl]
  rfl

theorem replicate_install {moved : Moved} {store : Store}
    (h : Store.replicateFrom ((network.install target store).store source) store = .ok moved store) :
    replicate source target (network.install target store) = .ok moved (network.install target store) := by
  have hresult : replicate source target (network.install target store)
      = .ok moved ((network.install target store).install target store) := by
    refine replicate_of_ok ?_
    rwa [holder_install]
  simpa only [install, Vector.set_set] using hresult

/-- A replication goes through and leaves the target with every leaf of the source besides what it had; a second one finds all of them present and changes nothing. -/
theorem replicate_settles (hsource : (network.store source).Networked)
    (htarget : (network.store target).Networked) (hblobs : (network.store target).writer.blobs.budget = none) :
    ∃ moved after leaves, replicate source target network = .ok moved after ∧
      (∀ pages, (network.store source).writer.database.tables.documents.length < pages →
        Store.replicatePages (network.store source) pages 0 {} (network.holder target) = .ok moved (after.store target)) ∧
      ((∀ i, i ≠ target → after.store i = network.store i) ∧
        (source = target → after.store target = network.holder target)) ∧
      (network.store source).allLeaves = .ok leaves ∧
      (moved.documents = (network.store source).writer.database.tables.documents.length ∧
        moved.inserted + moved.alreadyPresent = leaves.length) ∧
      (∀ leaf ∈ leaves, (after.store target).containsRevision leaf.doc leaf.rev = .ok true) ∧
      (network.store target).writer.database.tables.RetainsAll (after.store target).writer.database.tables ∧
      replicate source target after = .ok ⟨moved.documents, 0, leaves.length⟩ after := by
  have orderly := hsource.orderly
  have ready : (network.holder target).Ready :=
    ⟨htarget.orderly.opened, htarget.orderly.rest, htarget.orderly.healthy, hblobs⟩
  obtain ⟨moved, store, hresult, hpages, ⟨hdocuments, hcount⟩, hready, hknown, hretains⟩ := orderly.replicates ready
  obtain ⟨leaves, hleaves, hlength, hshown⟩ := orderly.allLeaves_ok
  have hafter : (network.install target store).store target = store := by rw [install_store, if_pos rfl]
  -- A store that replicates into itself knows what is sent already.
  have hself : source = target → store = network.holder target := by
    rintro rfl
    have hnothing := orderly.replicates_nothing ready fun _ _ => HasLeaf.knows
    exact (EStateM.Result.ok.inj (hresult.symm.trans hnothing)).2
  refine ⟨moved, network.install target store, leaves, replicate_of_ok hresult, fun pages hmore => ?_, ⟨fun i hne => ?_, ?_⟩,
    hleaves, ⟨hdocuments, hcount.trans hlength⟩, fun leaf hleaf => ?_, ?_, ?_⟩
  · rw [hafter]
    exact hpages pages hmore
  · rw [install_store, if_neg (Ne.symm hne)]
  · rw [hafter]
    exact hself
  · rw [hafter]
    obtain ⟨known, hanswer, hiff⟩ := Store.containsRevision_eq hready.opened leaf.doc leaf.rev
    rw [hanswer, hiff.mpr (hknown leaf.doc leaf.rev (hshown leaf hleaf))]
  · rw [hafter]
    exact hretains
  · refine replicate_install ?_
    rw [install_store, hdocuments, ← hlength]
    split
    · rename_i heq
      obtain rfl := heq.symm
      rw [hself rfl]
      exact (hsource.elapsed network.clock).orderly.replicates_nothing ready fun _ _ => HasLeaf.knows
    · exact orderly.replicates_nothing hready hknown

/-- The target has a revision of the source already, but below another root. -/
theorem replicate_settles_strangers :
    let source := stateAfter (Store.graftAll [
      { doc := "d", history := [⟨1, "a", by decide, by decide⟩, ⟨2, "b", by decide, by decide⟩], body := some Body.empty,
        attachments := [.plain "x" "text/plain" [1]] },
      { doc := "d", history := [⟨1, "a", by decide, by decide⟩, ⟨2, "c", by decide, by decide⟩], deleted := true },
      { doc := "e", history := [⟨3, "e", by decide, by decide⟩] }]) (.new {})
    let target := stateAfter (Store.graftAll [
      { doc := "d", history := [⟨1, "z", by decide, by decide⟩, ⟨2, "b", by decide, by decide⟩], body := some Body.empty }])
      (.new {})
    let network : Network 2 := ⟨#v[source, target], 0⟩
    ∃ after, replicate 0 1 network = .ok ⟨2, 2, 1⟩ after ∧ after.store 0 = source ∧
      target.writer.database.tables.RetainsAll (after.store 1).writer.database.tables ∧
      replicate 0 1 after = .ok ⟨2, 0, 3⟩ after := by
  intro source target network
  have hsource : (network.store 0).Networked :=
    ⟨by decide +kernel, {}, {}, .graftAll (fun _ _ => trivial) .start⟩
  have htarget : (network.store 1).Networked :=
    ⟨by decide +kernel, {}, {}, .graftAll (fun _ _ => trivial) .start⟩
  obtain ⟨moved, after, leaves, hresult, -, ⟨hothers, -⟩, -, ⟨-, hcount⟩, -, hretains, hagain⟩ :=
    replicate_settles hsource htarget (by decide +kernel)
  have hmoved : (match replicate 0 1 network with
      | .ok moved _ => some moved
      | .error _ _ => none) = some ⟨2, 2, 1⟩ := by decide +kernel
  rw [hresult] at hmoved
  obtain rfl := Option.some.inj hmoved
  rw [← hcount] at hagain
  exact ⟨after, hresult, hothers 0 (by decide), hretains, hagain⟩

end Network

end RevisionForest
