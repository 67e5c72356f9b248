import RevisionForest.Error

/-!
# Attachments

Named data beside a document's body. The data itself lives in a blob store under its digest; a revision holds only the description. New data comes in as `NewAttachment`, before it has been written anywhere.
-/

namespace RevisionForest

/-- How the stored bytes of an attachment are encoded. -/
inductive Encoding where
  | plain
  | gzip
  deriving DecidableEq

namespace Encoding

def name : Encoding → String
  | .plain => "plain"
  | .gzip => "gzip"

def parse (text : String) : Except DataError Encoding :=
  if text = "plain" then .ok .plain
  else if text = "gzip" then .ok .gzip
  else .error (.content (.encoding text))

theorem parse_name (encoding : Encoding) : parse encoding.name = .ok encoding := by
  cases encoding <;> rfl

end Encoding

/-- The description of an attachment of a stored revision. -/
structure Attachment where
  name : String
  contentType : String
  encoding : Encoding
  /-- The length of the decoded data. -/
  length : Nat
  /-- The length of the bytes in the blob store. -/
  encodedLength : Nat
  digest : Digest
  /-- The generation of the revision that brought these bytes into this store's history. -/
  revpos : Nat
  deriving DecidableEq

/-- An attachment as a caller supplies it. -/
structure NewAttachment where
  name : String
  contentType : String
  encoding : Encoding
  length : Nat
  data : Bytes
  deriving DecidableEq

namespace NewAttachment

/-- Data that is stored as it is. -/
def plain (name contentType : String) (data : Bytes) : NewAttachment :=
  ⟨name, contentType, .plain, data.length, data⟩

def digest (attachment : NewAttachment) : Digest :=
  Digest.of attachment.data

/-- The description under which the data is stored. -/
def stored (attachment : NewAttachment) (revpos : Nat) : Attachment where
  name := attachment.name
  contentType := attachment.contentType
  encoding := attachment.encoding
  length := attachment.length
  encodedLength := attachment.data.length
  digest := attachment.digest
  revpos := revpos

end NewAttachment

/-- What an update does to the attachments of its parent; those not named are kept. -/
structure AttachmentChanges where
  put : List NewAttachment := []
  remove : List String := []
  deriving DecidableEq

namespace AttachmentChanges

def isEmpty (changes : AttachmentChanges) : Bool :=
  changes.put.isEmpty && changes.remove.isEmpty

/-- Whether the parent's attachment of this name is not carried forward. -/
def drops (changes : AttachmentChanges) (name : String) : Bool :=
  changes.remove.contains name || changes.put.any fun new => new.name = name

end AttachmentChanges

namespace Attachment

/-- What the fingerprint of a revision covers of its attachments. -/
def digests (attachments : List Attachment) : List (String × Digest) :=
  attachments.map fun attachment => (attachment.name, attachment.digest)

/-- Names must be present and different; the first fault in the list counts. -/
def checkNames (seen : List String) : List NewAttachment → Except InputFault Unit
  | [] => .ok ()
  | new :: rest =>
    if new.name = "" then .error .emptyAttachmentName
    else if seen.contains new.name then .error (.repeatedAttachment new.name)
    else checkNames (new.name :: seen) rest

end Attachment

end RevisionForest
