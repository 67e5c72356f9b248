import RevisionForest.Edit.Author
import RevisionForest.Edit.Graft
import RevisionForest.Edit.Tombstone
import RevisionForest.Writer

/-!
# Mutations

The five ways to change a document. Each checks what its arguments alone can tell, and then does its work in a transaction level of its own, so that mutations can be grouped by putting them inside another level.
-/

namespace RevisionForest

inductive Mutation where
  /-- Without an id, a fresh one is made up. -/
  | create (doc : Option String) (body : Bytes) (attachments : List NewAttachment)
  | update (doc : String) (expected : RevId) (body : Bytes) (changes : AttachmentChanges)
  | delete (doc : String) (rev : RevId)
  | deleteAllLeaves (doc : String)
  | graft (graft : Graft)
  deriving DecidableEq

/-- What a mutation that succeeded made. -/
inductive Outcome where
  | revision (revision : Revision)
  | tombstones (revisions : List Revision)
  | alreadyPresent
  deriving DecidableEq

namespace Action

/-- Insert the first revision of a document with a given id. -/
def createAs (doc : String) (body : Bytes) (attachments : List NewAttachment) : Action Revision := do
  check ((Body.validate body).mapError .ofData)
  if doc = "" then
    fail (.invalidInput .emptyDocumentId)
  transact (edit (Edit.create doc body attachments))

/-- Insert the first revision of a document. Without an id the document gets a fresh one, which counts as used when the document has been made. -/
def create (doc : Option String) (body : Bytes) (attachments : List NewAttachment) : Action Revision := do
  match doc with
  | some given => createAs given body attachments
  | none =>
    let revision ← createAs (idAt (← get).clock) body attachments
    tick
    return revision

def update (doc : String) (expected : RevId) (body : Bytes) (changes : AttachmentChanges) : Action Revision := do
  check ((Body.validate body).mapError .ofData)
  check ((Attachment.checkNames [] changes.put).mapError .invalidInput)
  transact (edit (Edit.update doc expected body changes))

def delete (doc : String) (rev : RevId) : Action Revision :=
  transact (edit (Edit.bury doc rev))

def deleteEach (doc : String) : List RevId → Action (List Revision)
  | [] => return []
  | rev :: rest => do
    let tombstone ← delete doc rev
    return tombstone :: (← deleteEach doc rest)

/-- Delete every live leaf, or none if one of them cannot be deleted. -/
def deleteAllLeaves (doc : String) : Action (List Revision) :=
  transact do deleteEach doc (← edit (Edit.liveLeaves doc))

/-- Merge a revision; the answer is nothing if it was there already. -/
def graft (graft : Graft) : Action (Option Revision) := do
  check graft.check
  transact (edit (Edit.graft graft))

end Action

def Mutation.run : Mutation → Action Outcome
  | .create doc body attachments => return .revision (← Action.create doc body attachments)
  | .update doc expected body changes => return .revision (← Action.update doc expected body changes)
  | .delete doc rev => return .revision (← Action.delete doc rev)
  | .deleteAllLeaves doc => return .tombstones (← Action.deleteAllLeaves doc)
  | .graft item => do
    match ← Action.graft item with
    | some revision => return .revision revision
    | none => return .alreadyPresent

end RevisionForest
