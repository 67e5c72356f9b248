import RevisionForest.Proofs.Authorship
import RevisionForest.Proofs.OrderIndependence
import RevisionForest.Proofs.Transfer
/-!
# Peers of one tree

A store that mirrors a tree in which generations rise sends nothing but grafts that fit this tree (`Graft.Carries.faithful`). Since every known id stands in the history of some leaf, a replication sends just what the source knows, and a target that mirrors the same tree then knows it as well (`Store.replicateFrom_ok`).
-/

namespace RevisionForest

namespace Store

/-- A store that can send to and receive from all peers that share a tree. -/
structure Peer (store : Store) (tree : Pedigree) : Prop where
  ready : store.Ready
  stocked : store.writer.holdings.Stocked
  shows : ∀ doc, store.writer.database.tables.Shows tree doc

end Store

open Tables

variable {source target : Store} {tree : Pedigree} {item : Graft} {items : List Graft} {row : RevisionRow}

theorem Store.Peer.orderly (peer : source.Peer tree) (rising : tree.Rising) : source.Orderly where
  opened := peer.ready.opened
  rest := peer.ready.rest
  healthy := peer.ready.healthy
  graded := by
    intro bone hbone
    obtain ⟨row, hrow, rfl⟩ := mem_bones_iff.mp hbone
    obtain ⟨rev, hreads⟩ := peer.ready.healthy.legible.revisions row hrow
    obtain ⟨⟨number, doc⟩, hhome, heq⟩ := peer.ready.healthy.shape.homes row hrow
    have hnumber := peer.ready.healthy.shape.documentNumber?_eq_some_iff.mpr hhome
    refine ⟨rev, hreads.1, ?_⟩
    rcases (peer.shows doc number hnumber).1.parents row.bare hbone heq.symm rev hreads.1 with
      ⟨-, hroot⟩ | ⟨older, sequence, habove, hparent, hstored⟩
    · exact .inl ⟨trivial, hroot⟩
    · exact .inr ⟨older, sequence, rising older rev habove, hparent, heq ▸ hstored⟩
  inhabited := by
    intro document hmem
    exact (peer.shows document.id _ (peer.ready.healthy.shape.documentNumber?_eq_some_iff.mpr hmem)).2
  stocked := peer.stocked

theorem Graft.Carries.faithful {tables : Tables} (h : item.Carries tables row) (healthy : tables.Healthy)
    (hshows : tables.Shows tree item.doc) (hleaf : row ∈ tables.leafRows row.document) :
    item.Faithful tree ∧ ∀ rev ∈ item.history, tables.Knows item.doc rev := by
  obtain ⟨hrow, -, hchildless⟩ := mem_leafRows_iff.mp hleaf
  have hbone : row.bare ∈ tables.bones := mem_bones_iff.mpr ⟨row, hrow, rfl⟩
  obtain ⟨rev, hreads, hhistory, hlast⟩ := h.tip
  obtain ⟨found, hfound, hline, -, hall⟩ :=
    hshows.revisionHistory_ok healthy ⟨_, h.home, row.bare, hbone, rfl, hreads.1⟩
  obtain rfl := Except.ok.inj (hhistory.symm.trans hfound)
  refine ⟨⟨h.toAdmissible, hline, fun other hother => ?_⟩, fun older holder => (hall older holder).1⟩
  obtain rfl := Option.some.inj (hlast.symm.trans hother)
  rw [h.deleted]
  rcases (hshows _ h.home).1.flags row.bare hbone rfl rev hreads.1 with hflag | hparented
  · exact hflag
  · rw [show tables.isLeaf row.sequence = false from hparented] at hchildless
    nomatch hchildless

theorem Tables.Shows.knows_iff_carried {tables : Tables} {doc : String} (hshows : tables.Shows tree doc)
    (healthy : tables.Healthy)
    (hcarries : List.Forall₂ (fun row item => item.Carries tables row) (tables.leavesOf (tables.newestAfter 0)) items)
    (rev : RevId) : (∃ item ∈ items, doc = item.doc ∧ rev ∈ item.history) ↔ tables.Knows doc rev := by
  constructor
  · rintro ⟨item, hitem, rfl, hrev⟩
    obtain ⟨row, hrow, hcarry⟩ := exists_mem_left hcarries hitem
    exact (hcarry.faithful healthy hshows (healthy.shape.mem_leavesOf_iff.mp hrow)).2 rev hrev
  · rintro ⟨number, hnumber, bone, hbone, hhome, htext⟩
    obtain ⟨row, hrow, rfl⟩ := mem_bones_iff.mp hbone
    obtain ⟨leaf, hleaf, tip, htip, hcovers⟩ :=
      hshows.exists_history healthy hnumber hrow hhome (healthy.legible.reads hrow htext)
    obtain ⟨-, rfl, -⟩ := mem_leafRows_iff.mp hleaf
    obtain ⟨item, hitem, hcarry⟩ := exists_mem_right hcarries (healthy.shape.mem_leavesOf_iff.mpr hleaf)
    obtain ⟨other, hother, -, hlast⟩ := hcarry.tip
    have hdoc := healthy.shape.doc_eq_of_number hnumber hcarry.home
    obtain ⟨hfits, -⟩ := hcarry.faithful healthy (hdoc ▸ hshows) hleaf
    exact ⟨item, hitem, hdoc, hcovers _ hfits.line (hother.unique htip ▸ hlast)⟩

namespace Store

/-- A replication transfers all that the source knows. -/
theorem replicateFrom_ok (peer : source.Peer tree) (rising : tree.Rising) (hpeer : target.Peer tree) :
    ∃ moved after, replicateFrom source target = .ok moved after ∧ after.Peer tree ∧
      ∀ doc rev, after.writer.database.tables.Knows doc rev ↔
        target.writer.database.tables.Knows doc rev ∨ source.writer.database.tables.Knows doc rev := by
  obtain ⟨items, hsends, hreplicate⟩ := (peer.orderly rising).replicateFrom_eq
  have hcarries := carries_of_conveys hsends
  have hfits : ∀ item ∈ items, item.Faithful tree := by
    intro item hitem
    obtain ⟨row, hrow, hcarry⟩ := exists_mem_left hcarries hitem
    exact (hcarry.faithful peer.ready.healthy (peer.shows item.doc)
      (peer.ready.healthy.shape.mem_leavesOf_iff.mp hrow)).1
  obtain ⟨hnone, hready, hshows, hknows⟩ := graftEach_ok (fun _ => tree) hpeer.ready hfits fun item _ => hpeer.shows item.doc
  obtain ⟨-, -, hfurnished⟩ := graftEach_follows covers_furnished items hpeer.ready.rest
  obtain ⟨-, hstocked⟩ := hfurnished hpeer.ready.healthy hpeer.stocked
  refine ⟨_, _, (hreplicate target hpeer.ready.opened hnone).1, ⟨hready, hstocked, fun doc => hshows doc (hpeer.shows doc)⟩,
    fun doc rev => ?_⟩
  rw [hknows, (peer.shows doc).knows_iff_carried peer.ready.healthy hcarries]

end Store

end RevisionForest
