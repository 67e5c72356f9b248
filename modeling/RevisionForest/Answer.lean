import RevisionForest.Mutation

/-!
# Answers

What the steps of a script answer, in one type, so that scripts of different steps have a list of answers. An answer can also be the error of a step that was allowed to fail.
-/

namespace RevisionForest

/-- Everything that can be read of the revisions of a store. -/
structure Contents where
  lastSequence : Int
  documentCount : Nat
  conflicted : List String
  /-- In order of their sequences. -/
  revisions : List Revision
  deriving DecidableEq

def Tables.contents (tables : Tables) : Tables.Query Contents := do
  let revisions ← tables.revisions.mapM fun row => tables.getBySequence row.sequence
  return ⟨tables.lastSequence, tables.documentCount, tables.conflictedIds, revisions.filterMap id⟩

inductive Answer where
  | done
  | number (n : Option Int)
  | count (n : Nat)
  | flag (value : Bool)
  | insertion (insertion : Insertion)
  | revision (revision : Option Revision)
  | revisions (revisions : List Revision)
  | winner (winner : Option Winner)
  | leaves (leaves : List Leaf)
  | history (revs : List RevId)
  | ids (docs : List String)
  | changes (changes : Changes)
  | attachments (attachments : List Attachment)
  | localDocument (document : Option LocalDocument)
  | contents (contents : Contents)
  | depth (levels : Nat) (inTransaction : Bool)
  | ending (ending : Ending)
  | group (answers : List Answer) (ending : Ending)
  | outcome (outcome : Outcome)
  | digest (digest : Digest)
  | script (answers : List Answer)
  /-- The error of a step on the database. -/
  | refused (error : StorageError)
  /-- The error of a command. -/
  | failed (error : StoreError)

end RevisionForest
