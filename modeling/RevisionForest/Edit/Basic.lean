import RevisionForest.BlobStore
import RevisionForest.Tables.Statement

/-!
# Edits

An edit is the work of one mutation between the opening and the closing of its transaction level: it changes the tables, adds blobs and announces events, and it may fail at any point with part of its work done. Whether that part stays is not its concern; the level around it decides.
-/

namespace RevisionForest

/-- What an edit works on. -/
structure Draft where
  tables : Tables
  blobs : BlobStore
  /-- The events announced so far, in order. -/
  events : List ChangeEvent

abbrev Edit := EStateM StoreError Draft

namespace Edit

/-- Run a statement on the tables. -/
def statement {α : Type} (action : Statement α) : Edit α := fun draft =>
  match action draft.tables with
  | .ok value tables => .ok value { draft with tables }
  | .error error tables => .error (.ofStorage error) { draft with tables }

def query {α : Type} (read : Tables → Tables.Query α) : Edit α :=
  statement (Statement.query read)

/-- Write bytes to the blob store. -/
def putBlob (bytes : Bytes) : Edit Digest := fun draft =>
  match BlobStore.put bytes draft.blobs with
  | .ok digest blobs => .ok digest { draft with blobs }
  | .error error blobs => .error (.ofStorage error) { draft with blobs }

def announce (event : ChangeEvent) : Edit Unit :=
  modify fun draft => { draft with events := draft.events ++ [event] }

/-- Go on with a value that must be there. -/
def require {α : Type} (found : Option α) (error : StoreError) : Edit α :=
  match found with
  | some value => return value
  | none => throw error

/-- The number of a document that must exist. -/
def documentNumber (doc : String) : Edit Int := do
  require ((← get).tables.documentNumber? doc) (.notFound (.document doc))

/-- The sequence of a revision that must exist. -/
def sequence (doc : String) (number : Int) (rev : RevId) : Edit Int := do
  require ((← get).tables.sequenceOf? number rev) (.notFound (.revision doc rev))

/-- The stored revision at a sequence that was just written. -/
def snapshot (sequence : Int) : Edit Revision := do
  require (← query (·.getBySequence sequence)) (.invariantViolation (.vanished sequence))

/-! ### Attachments -/

/-- Write the data of a new attachment and describe it. A rollback can leave the data behind, but there is never a description without data. -/
def storeAttachment (revpos : Nat) (attachment : NewAttachment) : Edit Attachment := do
  let _ ← putBlob attachment.data
  return attachment.stored revpos

/-- Write the data of new attachments, in order. -/
def storeAttachments (revpos : Nat) : List NewAttachment → Edit (List Attachment)
  | [] => return []
  | attachment :: rest => do
    let stored ← storeAttachment revpos attachment
    return stored :: (← storeAttachments revpos rest)

/-- Write new attachments of a revision one by one, each with its description. -/
def attach (sequence : Int) (revpos : Nat) : List NewAttachment → Edit Unit
  | [] => return
  | attachment :: rest => do
    let stored ← storeAttachment revpos attachment
    statement (Tables.insertAttachment sequence stored)
    attach sequence revpos rest

end Edit

end RevisionForest
