import RevisionForest.Edit.Basic
import RevisionForest.RevId.Fingerprint

/-!
# Writing documents

The two edits that put new content under a derived id: the first revision of a document, and a child of its winner. An update names the revision it was based on, and is refused unless that is still the winner; so of two updates based on one revision the second fails. It writes only the attachments that are new and copies the descriptions of those it keeps.
-/

namespace RevisionForest.Edit

/-- Insert the first revision of a document that does not exist. -/
def create (doc : String) (body : Bytes) (attachments : List NewAttachment) : Edit Revision := do
  if ((← get).tables.documentNumber? doc).isSome then
    throw (.alreadyExists doc)
  let number ← statement (Tables.insertDocument doc)
  if let .error fault := Attachment.checkNames [] attachments then
    throw (.invalidInput fault)
  let stored ← storeAttachments 1 attachments
  let rev := RevId.derive none false body (Attachment.digests stored)
  let root : NewRevision := ⟨number, rev, none, false, true, true, body⟩
  let sequence := (← statement (Tables.insertRevision root)).sequence
  statement (Tables.insertAttachments sequence stored)
  announce ⟨doc, none, some ⟨rev, sequence, false⟩⟩
  snapshot sequence

/-- The attachments that an update keeps; what it removes must be there. -/
def keptAttachments (parent : List Attachment) (changes : AttachmentChanges) : Except StoreError (List Attachment) :=
  match changes.remove.find? fun name => !parent.any fun attachment => attachment.name = name with
  | some name => .error (.notFound (.attachment name))
  | none => .ok (parent.filter fun attachment => !changes.drops attachment.name)

/-- Insert a live child of a revision that must be the winner and live. -/
def update (doc : String) (expected : RevId) (body : Bytes) (changes : AttachmentChanges) : Edit Revision := do
  let number ← documentNumber doc
  let parent ← sequence doc number expected
  let winner ← require (← query (·.currentWinner number)) (.invariantViolation (.noWinner doc))
  if winner.sequence ≠ parent then
    throw (.conflict (.notWinner doc expected winner.rev))
  if winner.deleted then
    throw (.notFound (.deletedDocument doc))
  let kept ← MonadExcept.ofExcept (keptAttachments (← query (·.attachmentsFor parent)) changes)
  let fresh ← storeAttachments (expected.generation + 1) changes.put
  let rev := RevId.derive (some expected) false body (Attachment.digests (kept ++ fresh))
  statement (Tables.setCurrent parent false)
  let child : NewRevision := ⟨number, rev, some parent, false, true, true, body⟩
  let sequence := (← statement (Tables.insertRevision child)).sequence
  let skip := changes.remove ++ changes.put.map (·.name)
  let copied ← statement (Tables.copyAttachments parent sequence skip)
  if copied ≠ kept.length then
    throw (.invariantViolation (.copyCount copied doc rev kept.length))
  statement (Tables.insertAttachments sequence fresh)
  announce ⟨doc, some winner, ← statement (Tables.pickWinner number)⟩
  snapshot sequence

end RevisionForest.Edit
