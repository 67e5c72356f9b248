import RevisionForest.Store.Read

/-!
# Batches and values

Requests made of other requests: a list of grafts applied one by one, each atomic by itself, with the failures collected; and documents written from JSON values instead of bytes.
-/

namespace RevisionForest

/-- What a batch of grafts did. -/
structure GraftReport where
  /-- The revisions that were new, in order of the items. -/
  inserted : List Revision := []
  alreadyPresent : Nat := 0
  failures : List ItemFailure := []
  deriving DecidableEq

namespace Graft

/-- How a failed item is reported. -/
def failure (graft : Graft) (error : StoreError) : ItemFailure :=
  ⟨graft.doc, graft.revText, error.message, error.recoverable⟩

end Graft

namespace GraftReport

/-- The report with the result of one more item in front. -/
def cons (item : Graft) (result : Except StoreError (Option Revision)) (report : GraftReport) : GraftReport :=
  match result with
  | .ok (some revision) => { report with inserted := revision :: report.inserted }
  | .ok none => { report with alreadyPresent := report.alreadyPresent + 1 }
  | .error error => { report with failures := item.failure error :: report.failures }

/-- How many items succeeded. -/
def applied (report : GraftReport) : Nat :=
  report.inserted.length + report.alreadyPresent

end GraftReport

namespace Store

/-- Apply grafts in order; a failure does not stop the rest. -/
def graftEach : List Graft → Store → GraftReport × Store
  | [], store => ({}, store)
  | item :: rest, store =>
    match graft item store with
    | .ok found after =>
      let (report, last) := graftEach rest after
      (report.cons item (.ok found), last)
    | .error error after =>
      let (report, last) := graftEach rest after
      (report.cons item (.error error), last)

/-- Apply a batch of grafts, each in a transaction of its own. -/
def graftAll (items : List Graft) : Request GraftReport := fun store =>
  if store.closed && !items.isEmpty then
    .error .queueClosed store
  else
    let (report, after) := graftEach items store
    if report.failures.isEmpty then .ok report after
    else .error (.partialFailure report.applied report.failures) after

/-! ### Values -/

/-- The body that a value is written as. -/
def bodyOf (value : Json) : Bytes :=
  Utf8.encode value.render

def createValue (doc : String) (value : Json) : Request Revision :=
  create (some doc) (bodyOf value) []

def updateValue (doc : String) (expected : RevId) (value : Json) : Request Revision :=
  update doc expected (bodyOf value) {}

/-- Add a child to any revision as if another peer had made it; the answer is its id, also if it was there already. -/
def branch (doc : String) (base : RevId) (value : Json) : Request RevId := do
  let child := RevId.derive (some base) false (bodyOf value) []
  let history ← MonadExcept.ofExcept ((← get).revisionHistory doc base)
  let _ ← graft { doc, history := history ++ [child], body := some (bodyOf value) }
  return child

end Store

end RevisionForest
