import RevisionForest.Edit.Basic

/-!
# Grafts

A graft merges a revision of another peer into the tree, with whatever part of its ancestry is missing. Ancestors that are not known become stubs below the deepest one that is known, so the tree stays connected in whatever order revisions arrive; if none is known, the first one becomes a root. A revision that is already there is left as it is.
-/

namespace RevisionForest

structure Graft where
  doc : String
  /-- The ids from the root, or from where the peer's knowledge starts, to the revision itself. -/
  history : List RevId
  deleted : Bool := false
  /-- Without a body the revision itself comes as a stub. -/
  body : Option Bytes := none
  attachments : List NewAttachment := []
  deriving DecidableEq

namespace Graft

/-- The first step of a history that is not one generation. -/
def gap? : List RevId → Option (RevId × RevId)
  | older :: newer :: rest =>
    if newer.generation = older.generation + 1 then gap? (newer :: rest) else some (older, newer)
  | _ => none

/-- What can be said of a graft without looking at the store. -/
def check (graft : Graft) : Except StoreError Unit := do
  if graft.doc = "" then
    throw (.invalidInput .emptyDocumentId)
  if graft.history = [] then
    throw (.invalidInput (.emptyHistory graft.doc))
  if let some (older, newer) := gap? graft.history then
    throw (.invalidInput (.historyGap graft.doc older newer))
  if let some body := graft.body then
    (Body.validate body).mapError .ofData
  (Attachment.checkNames [] graft.attachments).mapError .invalidInput

/-- The id of the revision to merge, as texts name it; empty if there is none. -/
def revText (graft : Graft) : String :=
  match graft.history.getLast? with
  | some rev => rev.text
  | none => ""

/-- The last known id of a list, and the ids after it. -/
def splitKnown (known? : RevId → Option Int) : List RevId → Option Int × List RevId
  | [] => (none, [])
  | rev :: rest =>
    match splitKnown known? rest with
    | (some sequence, missing) => (some sequence, missing)
    | (none, missing) =>
      match known? rev with
      | some sequence => (some sequence, missing)
      | none => (none, rev :: missing)

end Graft

namespace Edit

/-- The number of a document, which is inserted if it is new. -/
def openDocument (doc : String) : Edit Int := do
  match (← get).tables.documentNumber? doc with
  | some number => return number
  | none => statement (Tables.insertDocument doc)

/-- Insert a chain of stubs; the answer is the sequence of the last one, or the given parent if the chain is empty. -/
def plantStubs (number : Int) (parent : Option Int) : List RevId → Edit (Option Int)
  | [] => return parent
  | rev :: rest => do
    let stub : NewRevision := ⟨number, rev, parent, false, false, false, Body.empty⟩
    let inserted ← statement (Tables.insertRevision stub)
    plantStubs number (some inserted.sequence) rest

/-- Merge a revision; the answer is nothing if it was there already. -/
def graft (graft : Graft) : Edit (Option Revision) := do
  let rev ← require graft.history.getLast? (.invalidInput (.emptyHistory graft.doc))
  let number ← openDocument graft.doc
  if ((← get).tables.sequenceOf? number rev).isSome then
    return none
  let prev ← query (·.currentWinner number)
  let (known, missing) := Graft.splitKnown ((← get).tables.sequenceOf? number) graft.history.dropLast
  let parent ← plantStubs number known missing
  let leaf : NewRevision :=
    ⟨number, rev, parent, graft.deleted, false, graft.body.isSome || graft.deleted, graft.body.getD Body.empty⟩
  let sequence := (← statement (Tables.insertRevision leaf)).sequence
  attach sequence rev.generation graft.attachments
  announce ⟨graft.doc, prev, ← statement (Tables.pickWinner number)⟩
  return some (← snapshot sequence)

end Edit

end RevisionForest
