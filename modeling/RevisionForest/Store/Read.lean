import RevisionForest.Store.Basic

/-!
# Reading a store

Reads change nothing, so they are functions of the store. A closed store answers none of them except whether it holds some blob.
-/

namespace RevisionForest.Store

/-- Put a question to the tables. -/
def ask {α : Type} (store : Store) (question : Tables → Tables.Query α) : Except StoreError α :=
  if store.closed then .error .queueClosed
  else (question store.writer.database.tables).mapError .ofStorage

/-- Answer what was found, which must be there. -/
def expect {α : Type} (found : Option α) (missing : Missing) : Except StoreError α :=
  match found with
  | some value => .ok value
  | none => .error (.notFound missing)

/-! ### Documents -/

/-- A revision, or the winner if none is named. A deleted winner is answered as it is. -/
def read (store : Store) (doc : String) : Option RevId → Except StoreError Revision
  | some rev => do expect (← store.ask (·.getRevision doc rev)) (.revision doc rev)
  | none => do expect (← store.ask (·.currentRevision doc)) (.document doc)

def leaves (store : Store) (doc : String) : Except StoreError (List Revision) := do
  match ← store.ask (·.leafRevisions doc) with
  | [] => throw (.notFound (.document doc))
  | leaves => return leaves

/-- Whether a document has more than one live leaf. -/
def isConflicted (store : Store) (doc : String) : Except StoreError Bool := do
  let number ← expect (← store.ask fun tables => .ok (tables.documentNumber? doc)) (.document doc)
  return Election.isConflicted (← store.ask (·.leaves number))

/-- Whether a document exists and its winner is live. -/
def contains (store : Store) (doc : String) : Except StoreError Bool := do
  return (← store.ask (·.currentRevision doc)).any fun winner => !winner.deleted

def containsRevision (store : Store) (doc : String) (rev : RevId) : Except StoreError Bool :=
  store.ask fun tables =>
    .ok ((tables.documentNumber? doc).any fun number => (tables.sequenceOf? number rev).isSome)

/-- The ids from the root to a revision, both included. -/
def revisionHistory (store : Store) (doc : String) (rev : RevId) : Except StoreError (List RevId) :=
  store.ask (·.revisionHistory doc rev)

/-- The winners of the documents changed after a sequence. -/
def changes (store : Store) (since : Int) (limit : Nat) : Except StoreError Changes :=
  store.ask (·.changes since limit)

/-- The documents with more than one live leaf. -/
def conflictedIds (store : Store) : Except StoreError (List String) :=
  store.ask fun tables => .ok tables.conflictedIds

/-- How many documents have a live winner. -/
def documentCount (store : Store) : Except StoreError Nat :=
  store.ask fun tables => .ok tables.documentCount

def lastSequence (store : Store) : Except StoreError Int :=
  store.ask fun tables => .ok tables.lastSequence

def getLocal (store : Store) (doc : String) : Except StoreError LocalDocument := do
  expect (← store.ask (·.getLocal doc)) (.localDocument doc)

def contents (store : Store) : Except StoreError Contents :=
  store.ask (·.contents)

/-- How many revisions of a document are flagged as its winner. -/
def currentFlags (store : Store) (doc : String) : Except StoreError Nat :=
  store.ask fun tables =>
    match tables.documentNumber? doc with
    | none => .ok 0
    | some number => .ok (tables.revisions.countP fun row => row.document = number && row.current)

/-! ### Attachments -/

def attachments (store : Store) (doc : String) (rev : RevId) : Except StoreError (List Attachment) := do
  return (← store.read doc (some rev)).attachments

/-- The stored bytes under a digest. -/
def blob (store : Store) (digest : Digest) : Except StoreError Bytes :=
  (store.writer.blobs.get digest).mapError .ofStorage

/-- The description of an attachment and its stored bytes. -/
def attachment (store : Store) (doc : String) (rev : RevId) (name : String) :
    Except StoreError (Attachment × Bytes) := do
  let found := (← store.attachments doc rev).find? fun attachment => attachment.name = name
  let attachment ← expect found (.attachmentOf name doc rev)
  return (attachment, ← store.blob attachment.digest)

/-- Whether some data is stored as a blob. -/
def hasBlob (store : Store) (data : Bytes) : Bool :=
  store.writer.blobs.contains (Digest.of data)

end RevisionForest.Store
