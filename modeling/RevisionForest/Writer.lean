import RevisionForest.Edit.Basic
import RevisionForest.Feed
import RevisionForest.Transaction

/-!
# The writer

Everything a store changes is owned by one writer, and all work is an action on it. An action returns, fails with an error or panics; the writer keeps whatever state it is in at that moment. `transact` runs an action as one level of a group, so actions can be composed: the events of the group are published by the commit of its outermost level, and one failed level undoes the whole group. `Writer.run` is the outer boundary, at which every group must be closed again.
-/

namespace RevisionForest

structure Writer where
  database : Database := {}
  blobs : BlobStore := {}
  feed : Feed
  /-- How many document ids have been made up and used. -/
  clock : Nat := 0
  deriving DecidableEq

/-- How an action ends without a value. -/
inductive Halt where
  | fault (error : StoreError)
  | panic
  deriving DecidableEq

abbrev Action := EStateM Halt Writer

namespace Action

/-- Take a step of the nested transaction. -/
def transaction {α : Type} (step : Transaction α) : Action α := fun writer =>
  match step writer.database with
  | .ok value database => .ok value { writer with database }
  | .error error database => .error (.fault (.ofStorage error)) { writer with database }

def fail {α : Type} (error : StoreError) : Action α :=
  throw (.fault error)

/-- Go on only if a check holds. -/
def check (condition : Except StoreError Unit) : Action Unit :=
  match condition with
  | .ok () => return
  | .error error => fail error

/-- Write bytes to the blob store. -/
def putBlob (bytes : Bytes) : Action Digest := fun writer =>
  match BlobStore.put bytes writer.blobs with
  | .ok digest blobs => .ok digest { writer with blobs }
  | .error error blobs => .error (.fault (.ofStorage error)) { writer with blobs }

/-! ### Edits -/

/-- The writer after an edit, with the events staged. -/
def install (writer : Writer) (draft : Draft) : Writer :=
  { writer with
    database := { writer.database with tables := draft.tables }.stage draft.events
    blobs := draft.blobs }

/-- Run an edit on the tables and blobs as they are. -/
def edit {α : Type} (work : Edit α) : Action α := fun writer =>
  match work ⟨writer.database.tables, writer.blobs, []⟩ with
  | .ok value draft => .ok value (install writer draft)
  | .error error draft => .error (.fault error) (install writer draft)

/-! ### Levels -/

/-- Close the level of an action that succeeded; the outermost level publishes. -/
def complete : Action Unit := do
  transaction Transaction.markSuccessful
  match ← transaction Transaction.finish with
  | .nested => return
  | .committed events => modify fun writer => { writer with feed := writer.feed.publish events }
  | .rolledBack => fail .transactionAborted

/-- Close the level of an action that failed; only the action's own error counts. -/
def close (writer : Writer) : Writer :=
  match transaction Transaction.finish writer with
  | .ok _ closed => closed
  | .error _ closed => closed

/-- Run an action as one level. A panic leaves the level open. -/
def transact {α : Type} (action : Action α) : Action α := fun writer =>
  match (transaction Transaction.begin *> action) writer with
  | .ok value inside =>
    match complete inside with
    | .ok () outside => .ok value outside
    | .error halt outside => .error halt outside
  | .error (.fault error) inside => .error (.fault error) (close inside)
  | .error .panic inside => .error .panic inside

/-! ### Fresh ids -/

/-- The document id made up at some moment: 32 digits, later ones greater. -/
def idAt (moment : Nat) : String :=
  String.ofList (Hex.encode ([1, 154] ++ (List.range 14).map fun i => UInt8.ofNat (moment / Nat.pow 256 (13 - i))))

/-- Note that an id made up has been used. -/
def tick : Action Unit :=
  modify fun writer => { writer with clock := writer.clock + 1 }

end Action

namespace Writer

/-- Close all levels without success. -/
def recover (writer : Writer) : Writer :=
  { writer with database := writer.database.abandon }

/-- What a submitter is told of an ended action. Panics and levels left open are reported as such, whatever else the action answered, and undone. -/
def settle {α : Type} (result : Except Halt α) (writer : Writer) : Except StoreError α × Writer :=
  match result with
  | .error .panic => (.error (.invariantViolation .panicked), writer.recover)
  | .error (.fault error) =>
    if writer.database.inTransaction then
      (.error (.invariantViolation (.levelsLeftOpen writer.database.depth)), writer.recover)
    else (.error error, writer)
  | .ok value =>
    if writer.database.inTransaction then
      (.error (.invariantViolation (.levelsLeftOpen writer.database.depth)), writer.recover)
    else (.ok value, writer)

/-- Run a submitted action to its end. -/
def run {α : Type} (action : Action α) (writer : Writer) : Except StoreError α × Writer :=
  match action writer with
  | .ok value after => after.settle (.ok value)
  | .error halt after => after.settle (.error halt)

end Writer

end RevisionForest
