import RevisionForest.Proofs.Branching
import RevisionForest.Store.Batch
/-!
# Batches of grafts

An open store between actions that can be written takes every admissible graft (`Store.Ready.graft_ok`), so a batch of them goes through without a failure, and each item counts as inserted or as already present. The report of two batches in a row is that of one.

A graft whose revision is known changes nothing at all, so a batch of such grafts leaves the store as it is (`Store.Ready.graftEach_known`).
-/

namespace RevisionForest

theorem Tables.Extends.knows {before after : Tables} {doc : String} {rev : RevId} (h : before.Extends after)
    (hknown : before.Knows doc rev) : after.Knows doc rev := by
  obtain ⟨number, hnumber, bone, hbone, hstored⟩ := hknown
  exact ⟨number, h.documentNumber? hnumber, bone, h.bones.subset hbone, hstored⟩

namespace Edit

open Tables

variable {draft draft' : Draft} {item : Graft} {found : Option Revision} {rev : RevId}

theorem graft_known (hrev : item.history.getLast? = some rev) (hknown : draft.tables.Knows item.doc rev) :
    graft item draft = .ok none draft := by
  obtain ⟨number, hnumber, hstored⟩ := hknown
  exact graft_ok_iff.mpr ⟨rev, number, draft.tables, hrev, openTables_ok_iff.mpr (.inl ⟨hnumber, rfl⟩),
    .inl ⟨stores_iff.mp hstored, rfl, rfl⟩⟩

theorem graft_knows (healthy : draft.tables.Healthy) (hcheck : item.check = .ok ())
    (hrev : item.history.getLast? = some rev) (h : graft item draft = .ok found draft') :
    draft'.tables.Knows item.doc rev := by
  obtain ⟨-, -, hgap, -⟩ := Graft.check_ok_iff.mp hcheck
  obtain ⟨last, number, opened, ⟨hlast, hopen, -⟩, hcases⟩ := graft_effect healthy hgap h
  obtain rfl := Option.some.inj (hrev.symm.trans hlast)
  obtain ⟨-, hnumber, -⟩ := openTables_ok healthy hopen
  rcases hcases with ⟨hthere, -, heq, -⟩ | ⟨-, -, hgains⟩
  · rw [heq]
    exact ⟨number, hnumber, stores_iff.mpr hthere⟩
  · refine ⟨number, (hgains.documentNumber? item.doc).trans hnumber, hgains.stores_iff.mpr (.inr ?_)⟩
    exact ⟨_, List.mem_append_right _ (List.mem_singleton.mpr rfl), rfl, rfl⟩

end Edit

/-! ### Reports -/

namespace GraftReport

/-- The report of two batches in a row. -/
def append (first second : GraftReport) : GraftReport :=
  ⟨first.inserted ++ second.inserted, first.alreadyPresent + second.alreadyPresent, first.failures ++ second.failures⟩

variable {first second report : GraftReport} {item : Graft}

theorem append_cons (result : Except StoreError (Option Revision)) :
    (first.cons item result).append second = (first.append second).cons item result := by
  rcases result with error | _ | revision
  · rfl
  · simp only [cons, append, GraftReport.mk.injEq, true_and, and_true]
    omega
  · rfl

theorem cons_ok (report : GraftReport) (item : Graft) (found : Option Revision) :
    (report.cons item (.ok found)).failures = report.failures ∧
      (report.cons item (.ok found)).applied = report.applied + 1 := by
  cases found with
  | none => exact ⟨rfl, rfl⟩
  | some revision =>
    refine ⟨rfl, ?_⟩
    simp only [cons, applied, List.length_cons]
    omega

end GraftReport

namespace Store

variable {store : Store} {item : Graft} {items : List Graft}

/-- An open store between actions, with healthy tables, over blobs that can be written. -/
structure Ready (store : Store) : Prop where
  opened : store.closed = false
  rest : store.AtRest
  healthy : store.writer.database.tables.Healthy
  unlimited : store.writer.blobs.budget = none

/-- The store after an edit that was submitted alone. -/
def committed (store : Store) (draft : Draft) : Store :=
  { store with writer := { store.writer with
      database := ⟨draft.tables, none⟩, blobs := draft.blobs, feed := store.writer.feed.publish draft.events } }

theorem Ready.graft_ok (ready : store.Ready) (hitem : item.Admissible) :
    ∃ found draft, Edit.graft item ⟨store.writer.database.tables, store.writer.blobs, []⟩ = .ok found draft ∧
      graft item store = .ok found (store.committed draft) ∧ (store.committed draft).Ready := by
  obtain ⟨found, draft, hwork⟩ : ∃ found draft,
      Edit.graft item ⟨store.writer.database.tables, store.writer.blobs, []⟩ = .ok found draft :=
    Edit.graft_progress ready.healthy ready.unlimited hitem
  obtain ⟨-, -, hgap, -⟩ := Graft.check_ok_iff.mp hitem.valid
  obtain ⟨_, _, _, ⟨-, -, healthy⟩, -⟩ := Edit.graft_effect ready.healthy hgap hwork
  have hlevel := Action.transact_edit_of_ok ready.rest hwork
  have hcheck : Action.check item.check store.writer = .ok () store.writer := Action.check_ok_iff.mpr ⟨hitem.valid, rfl⟩
  refine ⟨found, draft, hwork,
    execute_ok_iff.mpr ⟨ready.opened, _, ok_bind_iff.mpr ⟨_, _, hcheck, hlevel⟩, rfl, rfl⟩, ready.opened, rfl, healthy, ?_⟩
  exact ((Edit.graft_grows item).grown hwork).unlimited ready.unlimited

theorem Ready.graft_known {rev : RevId} (ready : store.Ready) (hitem : item.Admissible)
    (hrev : item.history.getLast? = some rev) (hknown : store.writer.database.tables.Knows item.doc rev) :
    graft item store = .ok none store := by
  obtain ⟨found, draft, hwork, hgraft, -⟩ := ready.graft_ok hitem
  rw [Edit.graft_known hrev hknown] at hwork
  obtain ⟨rfl, rfl⟩ := EStateM.Result.ok.inj hwork
  rw [hgraft]
  obtain ⟨config, ⟨⟨tables, group⟩, blobs, feed, clock⟩, closed⟩ := store
  obtain rfl : group = none := ready.rest
  rfl

/-! ### Batches -/

theorem graftEach_cons (item : Graft) (store : Store) :
    ∃ result, ∀ rest, graftEach (item :: rest) store
      = ((graftEach rest (stateAfter (graft item) store)).1.cons item result,
        (graftEach rest (stateAfter (graft item) store)).2) := by
  unfold stateAfter
  cases hgraft : graft item store with
  | ok found after => exact ⟨.ok found, fun rest => by rw [graftEach, hgraft]⟩
  | error error after => exact ⟨.error error, fun rest => by rw [graftEach, hgraft]⟩

theorem graftEach_append (items rest : List Graft) (store : Store) :
    graftEach (items ++ rest) store
      = ((graftEach items store).1.append (graftEach rest (graftEach items store).2).1,
        (graftEach rest (graftEach items store).2).2) := by
  induction items generalizing store with
  | nil => simp [graftEach, GraftReport.append]
  | cons item items ih =>
    obtain ⟨result, hcons⟩ := graftEach_cons item store
    rw [List.cons_append, hcons, hcons, ih, GraftReport.append_cons]

theorem graftAll_of_ok (hopen : store.closed = false) (hnone : (graftEach items store).1.failures = []) :
    graftAll items store = .ok (graftEach items store).1 (graftEach items store).2 := by
  simp only [graftAll, hopen, Bool.false_and, Bool.false_eq_true, ↓reduceIte, hnone, List.isEmpty_nil]

theorem graftEach_of_ok {found : Option Revision} {after : Store} (h : graft item store = .ok found after)
    (rest : List Graft) :
    graftEach (item :: rest) store = ((graftEach rest after).1.cons item (.ok found), (graftEach rest after).2) := by
  rw [graftEach, h]

/-- A batch of admissible grafts goes through, and then their revisions are known. -/
theorem Ready.graftEach_ok (ready : store.Ready) (hitems : ∀ item ∈ items, item.Admissible) :
    (graftEach items store).1.failures = [] ∧ (graftEach items store).1.applied = items.length ∧
      (graftEach items store).2.Ready ∧
      ∀ item ∈ items, ∀ rev, item.history.getLast? = some rev →
        (graftEach items store).2.writer.database.tables.Knows item.doc rev := by
  induction items generalizing store with
  | nil => exact ⟨rfl, rfl, ready, List.forall_mem_nil _⟩
  | cons item rest ih =>
    obtain ⟨found, draft, hwork, hgraft, hafter⟩ := ready.graft_ok (hitems item List.mem_cons_self)
    obtain ⟨hfailures, happlied, hlast, hknown⟩ := ih hafter fun other hother => hitems other (List.mem_cons_of_mem _ hother)
    obtain ⟨hnone, hcounted⟩ := (graftEach rest (store.committed draft)).1.cons_ok item found
    rw [graftEach_of_ok hgraft]
    refine ⟨hnone.trans hfailures, hcounted.trans (congrArg (· + 1) happlied), hlast, fun other hother rev hrev => ?_⟩
    rcases List.mem_cons.mp hother with rfl | hother
    · have hfirst : (store.committed draft).writer.database.tables.Knows other.doc rev :=
        Edit.graft_knows ready.healthy (hitems other List.mem_cons_self).valid hrev hwork
      exact ((graftEach_follows covers_sound rest hafter.rest).2 hafter.healthy).2.knows hfirst
    · exact hknown other hother rev hrev

theorem Ready.graftEach_known (ready : store.Ready) (hitems : ∀ item ∈ items, item.Admissible)
    (hknown : ∀ item ∈ items, ∀ rev, item.history.getLast? = some rev → store.writer.database.tables.Knows item.doc rev) :
    graftEach items store = ({ alreadyPresent := items.length }, store) := by
  induction items with
  | nil => rfl
  | cons item rest ih =>
    have hitem := hitems item List.mem_cons_self
    have hrev := List.getLast?_eq_some_getLast (Graft.check_ok_iff.mp hitem.valid).2.1
    have hgraft := ready.graft_known hitem hrev (hknown item List.mem_cons_self _ hrev)
    rw [graftEach_of_ok hgraft, ih (fun other hother => hitems other (List.mem_cons_of_mem _ hother))
      fun other hother => hknown other (List.mem_cons_of_mem _ hother)]
    rfl

end Store

end RevisionForest
