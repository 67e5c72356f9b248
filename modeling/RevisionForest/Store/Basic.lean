import RevisionForest.Command
import RevisionForest.Config

/-!
# Stores

An open store is a writer that takes submitted actions one at a time. Everything a caller changes goes through `execute`, so every change ends with all transaction levels closed. Reads look at the tables of the writer between two actions. A closed store takes nothing more, but its blobs and its feed can still be looked at.
-/

namespace RevisionForest

structure Store where
  config : Config
  writer : Writer
  closed : Bool := false
  deriving DecidableEq

/-- What a caller asks of a store that may change by it. -/
abbrev Request := EStateM StoreError Store

namespace Store

/-- Open a store that has no documents yet, over some blobs. -/
def openWith (config : Config) (blobs : BlobStore) : Store :=
  ⟨config, { feed := { limit := config.changeHistory }, blobs }, false⟩

/-- Open a store that has nothing yet. -/
def new (config : Config) : Store :=
  openWith config {}

/-- Close a store and open its configuration again. What is not kept on disk is gone, and so is the history of events; earlier subscribers can read what they have received and get nothing more. -/
def reopen (store : Store) : Store where
  config := store.config
  writer :=
    { database := { tables := if store.config.keepsTables then store.writer.database.tables else {} }
      blobs := if store.config.keepsBlobs then store.writer.blobs else {}
      feed := store.writer.feed.restart
      clock := store.writer.clock }
  closed := false

def close (store : Store) : Store :=
  { store with closed := true }

/-! ### Submission -/

/-- Submit an action and wait for its result. -/
def execute {α : Type} (action : Action α) : Request α := fun store =>
  if store.closed then .error .queueClosed store
  else
    match store.writer.run action with
    | (.ok value, writer) => .ok value { store with writer }
    | (.error error, writer) => .error error { store with writer }

/-- Submit a script as one action. The answers given before its end are kept also when it fails. -/
def executeScript (script : Script) (store : Store) : (List Answer × Except StoreError Unit) × Store :=
  if store.closed then (([], .error .queueClosed), store)
  else
    let ((answers, halt), writer) := script.run store.writer
    let (result, writer) := writer.settle (match halt with
      | none => .ok ()
      | some halt => .error halt)
    ((answers, result), { store with writer })

/-- Submit a command and answer what it is told, be it an error. -/
def submit (command : Command) : Request (Except StoreError Answer) := fun store =>
  match execute command.run store with
  | .ok answer after => .ok (.ok answer) after
  | .error error after => .ok (.error error) after

/-- Submit each command of a list as an action of its own, in order. -/
def submitEach : List Command → Request (List (Except StoreError Answer))
  | [] => return []
  | command :: rest => do
    let result ← submit command
    return result :: (← submitEach rest)

/-- Submit commands without waiting in between, then close the store if wanted. What was submitted before is still done. -/
def submitAll (commands : List Command) (closing : Bool) : Request (List (Except StoreError Answer)) := do
  if (← get).closed && !commands.isEmpty then
    throw .queueClosed
  let results ← submitEach commands
  if closing then
    modify close
  return results

/-! ### Mutations -/

def create (doc : Option String) (body : Bytes) (attachments : List NewAttachment) : Request Revision :=
  execute (Action.create doc body attachments)

def update (doc : String) (expected : RevId) (body : Bytes) (changes : AttachmentChanges) : Request Revision :=
  execute (Action.update doc expected body changes)

def delete (doc : String) (rev : RevId) : Request Revision :=
  execute (Action.delete doc rev)

def deleteAllLeaves (doc : String) : Request (List Revision) :=
  execute (Action.deleteAllLeaves doc)

/-- Merge a revision; the answer is nothing if it was there already. -/
def graft (graft : Graft) : Request (Option Revision) :=
  execute (Action.graft graft)

/-! ### Local documents -/

def putLocal (doc : String) (body : Bytes) : Request LocalDocument := do
  MonadExcept.ofExcept ((Body.validate body).mapError .ofData)
  execute (Action.transact (Action.transaction (Transaction.statement (Tables.putLocal doc body))))

def deleteLocal (doc : String) : Request Unit :=
  execute do
    let removed ← Action.transact (Action.transaction (Transaction.statement (Tables.deleteLocal doc)))
    if !removed then
      Action.fail (.notFound (.localDocument doc))

/-! ### Maintenance and notification -/

/-- Reclaim space; nothing that can be read changes. -/
def compact : Request Unit :=
  execute (Action.transaction Transaction.vacuum)

/-- Receive every event committed from now on; the answer is the ticket to read them with. -/
def subscribe (capacity : Option Nat) (store : Store) : Nat × Store :=
  let (ticket, feed) := store.writer.feed.subscribe capacity
  (ticket, { store with writer := { store.writer with feed } })

/-- Read events that a subscriber has received. -/
def drain (ticket : Nat) (most : Option Nat) (store : Store) : List ChangeEvent × DrainEnd × Store :=
  let (events, ending, feed) := store.writer.feed.drain ticket most
  (events, ending, { store with writer := { store.writer with feed } })

/-- Drop a receiver. -/
def unsubscribe (ticket : Nat) (store : Store) : Store :=
  { store with writer := { store.writer with feed := store.writer.feed.drop ticket } }

/-- The most recent events. -/
def recentChanges (store : Store) : List ChangeEvent :=
  store.writer.feed.history

/-- Lose the blob of some data; the answer is whether there was one. -/
def loseBlob (data : Bytes) (store : Store) : Bool × Store :=
  let digest := Digest.of data
  (store.writer.blobs.contains digest,
    { store with writer := { store.writer with blobs := store.writer.blobs.lose digest } })

end Store

end RevisionForest
