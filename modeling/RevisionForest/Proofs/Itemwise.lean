import RevisionForest.Proofs.Atomicity
import RevisionForest.Proofs.Batches
/-!
# A batch is its items in order

A batch does to a store what its grafts do when they are submitted one after the other and no error is heeded. The report of the batch adds up what the single requests answer (`GraftReport.ofResults`): an item may find what an earlier one has brought, or a blob store that an earlier one has used up, and still the two ways agree step by step (`Store.graftEach_itemwise`). A failed item changes no table and publishes nothing, so the items after it are grafted as if it had not been there.
-/

namespace RevisionForest

namespace GraftReport

/-- What the results of grafts, in the order of the items, add up to. -/
def ofResults (items : List Graft) (results : List (Except StoreError (Option Revision))) : GraftReport where
  inserted := results.filterMap fun
    | .ok found => found
    | .error _ => none
  alreadyPresent := results.countP fun
    | .ok found => found.isNone
    | .error _ => false
  failures := (items.zip results).filterMap fun
    | (_, .ok _) => none
    | (item, .error error) => some (item.failure error)

variable {items : List Graft} {results : List (Except StoreError (Option Revision))}

theorem ofResults_cons (item : Graft) (result : Except StoreError (Option Revision)) :
    ofResults (item :: items) (result :: results) = (ofResults items results).cons item result := by
  rcases result with error | _ | revision
  · rfl
  · simp [ofResults, cons]
  · rfl

theorem applied_add_failures (hlength : results.length = items.length) :
    (ofResults items results).applied + (ofResults items results).failures.length = items.length := by
  induction items generalizing results with
  | nil =>
    obtain rfl := List.length_eq_zero_iff.mp hlength
    rfl
  | cons item items ih =>
    obtain ⟨result, results, rfl⟩ := List.exists_cons_of_length_eq_add_one hlength
    have hrest := ih (Nat.succ.inj hlength)
    rw [ofResults_cons]
    rcases result with error | found
    · simp only [cons, applied, List.length_cons] at hrest ⊢
      omega
    · obtain ⟨hfailures, happlied⟩ := cons_ok (ofResults items results) item found
      rw [hfailures, happlied, List.length_cons]
      omega

theorem failures_eq_nil_iff (hlength : results.length = items.length) :
    (ofResults items results).failures = [] ↔ ∀ result ∈ results, ∃ found, result = .ok found := by
  induction items generalizing results with
  | nil =>
    obtain rfl := List.length_eq_zero_iff.mp hlength
    simp [ofResults]
  | cons item items ih =>
    obtain ⟨result, results, rfl⟩ := List.exists_cons_of_length_eq_add_one hlength
    rw [ofResults_cons, List.forall_mem_cons, ← ih (Nat.succ.inj hlength)]
    rcases result with error | found
    · simp [cons]
    · simp [(cons_ok (ofResults items results) item found).1]

end GraftReport

namespace Store

variable {store : Store} {items : List Graft} {α : Type}

/-- Make a request and answer its result, be it an error. -/
def attempt (request : Request α) : Request (Except StoreError α) := fun store =>
  match request store with
  | .ok value after => .ok (.ok value) after
  | .error error after => .ok (.error error) after

theorem graftEach_itemwise (items : List Graft) (store : Store) :
    ∃ results, items.mapM (fun item => attempt (graft item)) store = .ok results (graftEach items store).2 ∧
      results.length = items.length ∧ (graftEach items store).1 = GraftReport.ofResults items results := by
  induction items generalizing store with
  | nil => exact ⟨[], rfl, rfl, rfl⟩
  | cons item rest ih =>
    obtain ⟨result, hattempt, heach⟩ : ∃ result,
        attempt (graft item) store = .ok result (stateAfter (graft item) store) ∧
        graftEach (item :: rest) store = ((graftEach rest (stateAfter (graft item) store)).1.cons item result,
          (graftEach rest (stateAfter (graft item) store)).2) := by
      unfold attempt stateAfter
      cases hgraft : graft item store with
      | ok found after => exact ⟨.ok found, rfl, by rw [graftEach, hgraft]⟩
      | error error after => exact ⟨.error error, rfl, by rw [graftEach, hgraft]⟩
    obtain ⟨results, hresults, hlength, hreport⟩ := ih (stateAfter (graft item) store)
    refine ⟨result :: results, ?_, congrArg (· + 1) hlength, ?_⟩
    · rw [List.mapM_cons, heach]
      exact ok_bind_iff.mpr ⟨_, _, hattempt, ok_bind_iff.mpr ⟨_, _, hresults, rfl⟩⟩
    · rw [heach, GraftReport.ofResults_cons, hreport]

theorem graftEach_of_closed (hclosed : store.closed = true) (items : List Graft) : (graftEach items store).2 = store := by
  induction items with
  | nil => rfl
  | cons item rest ih => rw [graftEach_cons_snd, stateAfter_execute, if_pos hclosed, ih]

theorem graftAll_of_open (hopen : store.closed = false) (items : List Graft) :
    graftAll items store =
      if (graftEach items store).1.failures = [] then .ok (graftEach items store).1 (graftEach items store).2
      else .error (.partialFailure (graftEach items store).1.applied (graftEach items store).1.failures)
        (graftEach items store).2 := by
  simp only [graftAll, hopen, Bool.false_and, Bool.false_eq_true, ↓reduceIte, List.isEmpty_iff]

/-- Grafts of a store one by one, whatever becomes of each. -/
def graftInTurn (items : List Graft) : Request (List (Except StoreError (Option Revision))) :=
  items.mapM fun item => attempt (graft item)

/-- How a batch compares with its grafts made in turn, which end in a store with some results. -/
structure Itemwise (store : Store) (items : List Graft) (results : List (Except StoreError (Option Revision)))
    (after : Store) : Prop where
  inTurn : graftInTurn items store = .ok results after
  length : results.length = items.length
  left : stateAfter (graftAll items) store = after
  succeeds : store.closed = false → ∀ report : GraftReport, graftAll items store = .ok report after ↔
    (∀ result ∈ results, ∃ found, result = .ok found) ∧ report = GraftReport.ofResults items results
  fails : store.closed = false → (∃ error, .error error ∈ results) → graftAll items store = .error (.partialFailure
    (GraftReport.ofResults items results).applied (GraftReport.ofResults items results).failures) after
  counted : (GraftReport.ofResults items results).applied + (GraftReport.ofResults items results).failures.length
    = items.length
  /-- A closed store refuses the batch as it would refuse each item. -/
  refused : store.closed = true → items ≠ [] → after = store ∧ graftAll items store = .error .queueClosed store

theorem itemwise (store : Store) (items : List Graft) : ∃ results after, store.Itemwise items results after := by
  obtain ⟨results, hresults, hlength, hreport⟩ := graftEach_itemwise items store
  have hfailures := GraftReport.failures_eq_nil_iff hlength
  refine ⟨results, (graftEach items store).2, hresults, hlength, ?_, fun hopen report => ?_, fun hopen hfailed => ?_,
    GraftReport.applied_add_failures hlength, fun hclosed hne => ⟨graftEach_of_closed hclosed items, ?_⟩⟩
  · rw [stateAfter_graftAll]
    split
    · rename_i hrefused
      exact (graftEach_of_closed (Bool.and_eq_true_iff.mp hrefused).1 items).symm
    · rfl
  · rw [graftAll_of_open hopen, hreport, ← hfailures]
    split
    · rename_i hnone
      simp [hnone, eq_comm]
    · rename_i hsome
      simp [hsome]
  · obtain ⟨error, herror⟩ := hfailed
    rw [graftAll_of_open hopen, hreport, if_neg]
    intro hnone
    obtain ⟨found, hfound⟩ := hfailures.mp hnone _ herror
    nomatch hfound
  · simp [graftAll, hclosed, hne]

theorem Attained.graftEach (h : store.Attained) (items : List Graft) : (graftEach items store).2.Attained := by
  induction items generalizing store with
  | nil => exact h
  | cons item rest ih =>
    have hrest := ih (h.executed (Action.graft item))
    rw [graftEach_cons_snd]
    exact hrest

theorem Attained.graftInTurn (h : store.Attained) (items : List Graft) :
    (stateAfter (graftInTurn items) store).Attained := by
  obtain ⟨results, hresults, -⟩ := graftEach_itemwise items store
  have hafter : stateAfter (Store.graftInTurn items) store = (Store.graftEach items store).2 := stateAfter_of_ok hresults
  rw [hafter]
  exact h.graftEach items

/-- A batch leaves the store that its grafts leave in turn and answers what their results add up to, and no graft that fails leaves a trace in the tables. -/
theorem Attained.graftAll_itemwise (h : store.Attained) (items : List Graft) :
    (∃ results after, store.Itemwise items results after) ∧
      ∀ first item rest error after, items = first ++ item :: rest →
        graft item (stateAfter (Store.graftInTurn first) store) = .error error after →
          (stateAfter (Store.graftInTurn first) store).Untouched after := by
  refine ⟨store.itemwise items, fun first item rest error after _ hfails => ?_⟩
  have hbefore := (h.graftInTurn first).atRest
  exact execute_untouched hbefore (Action.graft_ends (covers_any.graft item) _ (Writer.anchored_of_rest hbefore)) hfails

/-- The blobs can be written once, the second item needs two of them, and the third leaves out a generation. -/
theorem graftAll_itemwise_budget :
    let first : RevId := ⟨1, "a", by decide, by decide⟩
    let child : RevId := ⟨2, "b", by decide, by decide⟩
    let short : Graft :=
      { doc := "e", history := [first], body := some Body.empty,
        attachments := [.plain "x" "text/plain" [2], .plain "y" "text/plain" [3]] }
    let brought : Graft :=
      { doc := "d", history := [first], body := some Body.empty, attachments := [.plain "x" "text/plain" [1]] }
    let rest : List Graft := [{ doc := "f", history := [first, ⟨3, "c", by decide, by decide⟩] },
      { doc := "d", history := [first, child], body := some Body.empty }, { doc := "d", history := [first] }]
    let store := openWith {} { budget := some 1 }
    ∃ results after applied failures, store.Itemwise (brought :: short :: rest) results after ∧
      graftAll (brought :: short :: rest) store = .error (.partialFailure applied failures) after ∧ applied = 3 ∧
      failures.map (fun failure => (failure.doc, failure.rev, failure.recoverable))
        = [("e", "1-a", true), ("f", "3-c", false)] ∧
      ∃ error left, graft short (stateAfter (Store.graftInTurn [brought]) store) = .error error left ∧
        (stateAfter (Store.graftInTurn [brought]) store).Untouched left := by
  intro first child short brought rest store
  obtain ⟨⟨results, after, hwise⟩, htrace⟩ :=
    (Attained.opened {} { budget := some 1 }).graftAll_itemwise (brought :: short :: rest)
  have hanswer : (match graftAll (brought :: short :: rest) store with
      | .error (.partialFailure applied failures) _ =>
        some (applied, failures.map fun failure => (failure.doc, failure.rev, failure.recoverable))
      | _ => none) = some (3, [("e", "1-a", true), ("f", "3-c", false)]) := by decide +kernel
  have hsecond : ((graft short).run' (stateAfter (Store.graftInTurn [brought]) store)).isNone = true := by decide +kernel
  cases hbatch : graftAll (brought :: short :: rest) store with
  | ok report last =>
    rw [hbatch] at hanswer
    nomatch hanswer
  | error error last =>
    obtain rfl : last = after := (stateAfter_of_error hbatch).symm.trans hwise.left
    rw [hbatch] at hanswer
    cases error with
    | partialFailure applied failures =>
      obtain ⟨happlied, hfailures⟩ := Prod.mk.inj (Option.some.inj hanswer)
      refine ⟨results, last, applied, failures, hwise, rfl, happlied, hfailures, ?_⟩
      cases hshort : graft short (stateAfter (Store.graftInTurn [brought]) store) with
      | ok found left =>
        rw [run'_of_ok hshort] at hsecond
        nomatch hsecond
      | error error left => exact ⟨error, left, rfl, htrace [brought] short rest error left rfl hshort⟩
    | _ => nomatch hanswer

end Store

end RevisionForest
