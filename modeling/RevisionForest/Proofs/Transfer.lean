import RevisionForest.Proofs.Batches
import RevisionForest.Proofs.Pages
import RevisionForest.Proofs.Parcels
/-!
# One replication

The source is read page by page, and a page takes away from what is listed. No document is listed twice, so the pages do not run out before the list does. What is sent does not depend on the target, and batches that go through without a failure do the same as one batch of all their items. So a replication is one batch of a graft for each leaf of each document that the source lists (`Store.Orderly.replicateFrom_eq`).
-/

namespace RevisionForest

/-- The leaves of the documents of some rows. -/
def Tables.leavesOf (tables : Tables) (rows : List RevisionRow) : List RevisionRow :=
  rows.flatMap fun row => tables.leafRows row.document

theorem Tables.leavesOf_append (tables : Tables) (rows rest : List RevisionRow) :
    tables.leavesOf (rows ++ rest) = tables.leavesOf rows ++ tables.leavesOf rest :=
  List.flatMap_append

theorem Tables.Shape.mem_leavesOf_iff {tables : Tables} {row : RevisionRow} (shape : tables.Shape) :
    row ∈ tables.leavesOf (tables.newestAfter 0) ↔ row ∈ tables.leafRows row.document := by
  constructor
  · intro hrow
    obtain ⟨newest, -, hleaf⟩ := List.mem_flatMap.mp hrow
    obtain ⟨-, hhome, -⟩ := Tables.mem_leafRows_iff.mp hleaf
    exact hhome ▸ hleaf
  · intro hleaf
    obtain ⟨hrow, -, -⟩ := Tables.mem_leafRows_iff.mp hleaf
    obtain ⟨newest, hnewest, hsame⟩ := shape.exists_newest hrow (shape.sequence_bounds hrow).1
    exact List.mem_flatMap.mpr ⟨newest, hnewest, hsame ▸ hleaf⟩

namespace Store

open Tables

variable {source : Store}

theorem ofExcept_bind {α β : Type} {found : Except StoreError α} {value : α} (h : found = .ok value)
    (next : α → Request β) : (MonadExcept.ofExcept found >>= next) = next value := by
  rw [h]
  rfl

theorem Orderly.packAll_ok (orderly : source.Orderly) {rows : List RevisionRow} {winners : List Revision}
    (hpairs : List.Forall₂ (fun row winner => source.writer.database.tables.Wins row.document winner) rows winners) :
    ∃ items, winners.mapM (fun winner => source.packDocument winner.doc) = .ok items ∧
      List.Forall₂ (fun row item => item.Conveys source row)
        (source.writer.database.tables.leavesOf rows) items.flatten := by
  obtain ⟨items, hitems, hconveys⟩ := mapM_ok_of_forall₂ hpairs fun row _ winner hwins =>
    orderly.packDocument_ok hwins.registered
  exact ⟨items, hitems, List.rel_flatten (List.forall₂_map_left_iff.mpr hconveys)⟩

theorem Orderly.page_ok (orderly : source.Orderly) (since : Int) :
    let listed := source.writer.database.tables.newestAfter since
    ∃ page items, source.changes since pageSize = .ok page ∧ page.results.length = min pageSize listed.length ∧
      source.writer.database.tables.newestAfter page.last = listed.drop pageSize ∧
      page.results.mapM (fun winner => source.packDocument winner.doc) = .ok items ∧
      List.Forall₂ (fun row item => item.Conveys source row)
        (source.writer.database.tables.leavesOf (listed.take pageSize)) items.flatten := by
  intro listed
  have hlimit : pageLength pageSize listed.length = pageSize := if_pos (by decide)
  obtain ⟨page, hpage, -, hwinners, hlast⟩ := orderly.healthy.changes_ok since pageSize
  rw [hlimit] at hwinners hlast
  obtain ⟨items, hitems, hconveys⟩ := orderly.packAll_ok hwinners
  exact ⟨page, items, ask_of_open orderly.opened hpage, List.length_take ▸ hwinners.length_eq.symm, hlast, hitems, hconveys⟩

theorem Orderly.replicatePages_eq (orderly : source.Orderly) (since : Int) :
    let listed := source.writer.database.tables.newestAfter since
    ∃ items, List.Forall₂ (fun row item => item.Conveys source row)
        (source.writer.database.tables.leavesOf listed) items ∧
      ∀ (pages : Nat) (moved : Moved) (target : Store), listed.length < pages → target.closed = false →
        (graftEach items target).1.failures = [] →
        replicatePages source pages since moved target = .ok
          ⟨moved.documents + listed.length, moved.inserted + (graftEach items target).1.inserted.length,
            moved.alreadyPresent + (graftEach items target).1.alreadyPresent⟩ (graftEach items target).2 := by
  -- By induction on the length of the list, since a page takes away what it lists.
  obtain ⟨size, hsize⟩ : ∃ size, (source.writer.database.tables.newestAfter since).length = size := ⟨_, rfl⟩
  induction size using Nat.strongRecOn generalizing since with
  | ind size ih =>
    intro listed
    obtain ⟨page, packed, hpage, hlength, hlast, hpacked, hconveys⟩ := orderly.page_ok since
    have hstep : ∀ pages moved, replicatePages source (pages + 1) since moved
        = if page.results.isEmpty then pure moved else (do
            let report ← graftAll packed.flatten
            replicatePages source pages page.last
              ⟨moved.documents + page.results.length, moved.inserted + report.inserted.length,
                moved.alreadyPresent + report.alreadyPresent⟩) := by
      intro pages moved
      rw [replicatePages, ofExcept_bind hpage]
      split
      · rfl
      · rw [ofExcept_bind hpacked]
    have hfirst : page.results.length = min pageSize listed.length := hlength
    have hrest : (source.writer.database.tables.newestAfter page.last).length = listed.length - pageSize := by
      rw [hlast, List.length_drop]
    by_cases hdone : page.results = []
    · have hnone : listed = [] := by
        rw [hdone] at hfirst
        rw [← List.length_eq_zero_iff]
        simp only [pageSize, List.length_nil] at hfirst
        omega
      refine ⟨[], by rw [hnone]; exact .nil, fun pages moved target hpages _ _ => ?_⟩
      obtain ⟨pages, rfl⟩ := Nat.exists_eq_add_one_of_ne_zero (Nat.ne_zero_of_lt hpages)
      rw [hstep, if_pos (List.isEmpty_iff.mpr hdone), hnone]
      rfl
    · have hsome := List.length_pos_iff.mpr hdone
      have hfewer : listed.length - pageSize < listed.length := by
        simp only [pageSize] at hfirst ⊢
        omega
      obtain ⟨others, hconveys', hothers⟩ := ih _ (hsize ▸ hfewer) page.last hrest
      refine ⟨packed.flatten ++ others, ?_, fun pages moved target hpages hopen hnone => ?_⟩
      · rw [← List.take_append_drop pageSize listed, leavesOf_append, ← hlast]
        exact List.rel_append hconveys hconveys'
      · obtain ⟨pages, rfl⟩ := Nat.exists_eq_add_one_of_ne_zero (Nat.ne_zero_of_lt hpages)
        rw [graftEach_append] at hnone ⊢
        obtain ⟨hnone, hnone'⟩ := List.append_eq_nil_iff.mp hnone
        have hopen' : (graftEach packed.flatten target).2.closed = false := (graftEach_closed _ _).trans hopen
        rw [hstep, if_neg (by simpa using hdone)]
        refine ok_bind_iff.mpr ⟨_, _, graftAll_of_ok hopen hnone, ?_⟩
        rw [hothers pages _ _ (by omega) hopen' hnone', hrest]
        simp only [GraftReport.append, List.length_append, EStateM.Result.ok.injEq, Moved.mk.injEq, and_true]
        omega

/-- A graft for each leaf of each document that a store lists, in their order. -/
def Sends (source : Store) (items : List Graft) : Prop :=
  List.Forall₂ (fun row item => item.Conveys source row)
    (source.writer.database.tables.leavesOf (source.writer.database.tables.newestAfter 0)) items

/-- A replication is one batch of a graft for each leaf of each document that the source lists. -/
theorem Orderly.replicateFrom_eq (orderly : source.Orderly) :
    ∃ items, source.Sends items ∧
      ∀ target : Store, target.closed = false → (graftEach items target).1.failures = [] →
        replicateFrom source target = .ok
          ⟨(source.writer.database.tables.newestAfter 0).length, (graftEach items target).1.inserted.length,
            (graftEach items target).1.alreadyPresent⟩ (graftEach items target).2 ∧
        ∀ pages, source.writer.database.tables.documents.length < pages →
          replicatePages source pages 0 {} target = replicateFrom source target := by
  obtain ⟨items, hconveys, hreplicate⟩ := orderly.replicatePages_eq 0
  have hlisted := orderly.healthy.shape.newestAfter_length_le 0
  refine ⟨items, hconveys, fun target hopen hnone => ?_⟩
  have hresult := fun pages hpages => hreplicate pages {} target (Nat.lt_of_le_of_lt hlisted hpages) hopen hnone
  refine ⟨?_, fun pages hpages => (hresult pages hpages).trans (hresult _ (Nat.lt_succ_self _)).symm⟩
  rw [replicateFrom, hresult _ (Nat.lt_succ_self _)]
  simp

end Store

end RevisionForest
