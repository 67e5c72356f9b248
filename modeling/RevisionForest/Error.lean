import RevisionForest.Digest
import RevisionForest.RevId.Basic
import RevisionForest.Text.Quoted

/-!
# Errors

Three layers of errors, each with its causes and one function that words them. `DataError` says that some text or bytes do not have the form they should have, `StorageError` that a step on the tables or a transaction cannot be taken, `StoreError` what a caller of a store is told. The conversions upward sort causes by what the caller can do about them: look for something else, change the input, try again, or give up because the stored data cannot be right. Most causes have a constructor `reported` for a failure that a caller's own code raises inside a command.
-/

namespace RevisionForest

/-! ### Malformed data -/

inductive BodyFault where
  | notJson
  | notObject
  | reported (detail : String)
  deriving DecidableEq

inductive ContentFault where
  | encoding (name : String)
  | digest (text : String) (why : Digest.Malformed)
  | reported (detail : String)
  deriving DecidableEq

inductive DataError where
  | serialization (detail : String)
  | revisionId (text : String)
  | body (fault : BodyFault)
  | content (fault : ContentFault)
  deriving DecidableEq

def BodyFault.message : BodyFault → String
  | .notJson => "document body must be JSON text"
  | .notObject => "document body must be a JSON object"
  | .reported detail => detail

def Digest.Malformed.message : Digest.Malformed → String
  | .length bytes => "expected 64 hex bytes, received " ++ toString bytes
  | .byte first =>
    "invalid hex character: " ++
      if first < 128 then Text.quotedChar (Char.ofNat first.toNat)
      else "0x" ++ String.ofList (Nat.toDigits 16 first.toNat)

def ContentFault.message : ContentFault → String
  | .encoding name => "unknown attachment encoding: " ++ name
  | .digest text why => "invalid blob hash " ++ Text.quoted text ++ ": " ++ why.message
  | .reported detail => detail

def DataError.message : DataError → String
  | .serialization detail => "serialization error: " ++ detail
  | .revisionId text => "invalid revision id: " ++ text
  | .body fault => "invalid document body: " ++ fault.message
  | .content fault => "invalid data: " ++ fault.message

/-- Read an id that must be one. -/
def RevId.parse (text : String) : Except DataError RevId :=
  match RevId.parse? text with
  | some rev => .ok rev
  | none => .error (.revisionId text)

/-- Make an id of parts that must make one. -/
def RevId.ofParts (generation : Nat) (suffix : String) : Except DataError RevId :=
  match RevId.ofParts? generation suffix with
  | some rev => .ok rev
  | none => .error (.revisionId (RevId.partsText generation suffix))

/-- Read a digest that must be one. -/
def Digest.parse (text : String) : Except DataError Digest :=
  match Digest.ofHex text with
  | .ok digest => .ok digest
  | .error why => .error (.content (.digest text why))

/-! ### Steps on the tables -/

/-- A revision of a document, as messages name it. -/
def revisionName (doc : String) (rev : RevId) : String :=
  doc ++ "@" ++ rev.text

/-- What was looked for and is not there. -/
inductive Missing where
  | document (doc : String)
  | deletedDocument (doc : String)
  | revision (doc : String) (rev : RevId)
  | deletedRevision (doc : String) (rev : RevId)
  | sequence (n : Int)
  | attachment (name : String)
  | attachmentOf (name doc : String) (rev : RevId)
  | localDocument (doc : String)
  | blob (digest : Digest)
  | reported (what : String)
  deriving DecidableEq

def Missing.message : Missing → String
  | .document doc => "document " ++ doc
  | .deletedDocument doc => "document " ++ doc ++ " is deleted"
  | .revision doc rev => "revision " ++ revisionName doc rev
  | .deletedRevision doc rev => revisionName doc rev ++ " is already deleted"
  | .sequence n => "revision sequence " ++ toString n
  | .attachment name => "attachment " ++ name
  | .attachmentOf name doc rev => "attachment " ++ name ++ " on " ++ revisionName doc rev
  | .localDocument doc => "local document " ++ doc
  | .blob digest => "blob " ++ digest.toHex
  | .reported what => what

/-- A rule of the tables that a statement would break, or a transaction statement out of place. -/
inductive TableFault where
  | unknownReference
  | duplicateRevision
  | duplicateAttachment
  | digestLength
  | insertRefused
  | nothingToCommit
  | nothingToRollBack
  | unknownColumn (name : String)
  deriving DecidableEq

def TableFault.message : TableFault → String
  | .unknownReference => "FOREIGN KEY constraint failed"
  | .duplicateRevision => "UNIQUE constraint failed: revs.doc_id, revs.revid"
  | .duplicateAttachment => "UNIQUE constraint failed: attachments.sequence, attachments.filename"
  | .digestLength => "CHECK constraint failed: length(key) = 64"
  | .insertRefused => "insert refused"
  | .nothingToCommit => "cannot commit - no transaction is active"
  | .nothingToRollBack => "cannot rollback - no transaction is active"
  | .unknownColumn name => "Invalid column name: " ++ name

inductive ConstraintFault where
  | foreignParent (parent : Int) (rev : RevId) (document : Int)
  | reported (what : String)
  deriving DecidableEq

def ConstraintFault.message : ConstraintFault → String
  | .foreignParent parent rev document =>
    "parent " ++ toString parent ++ " of " ++ rev.text ++ " does not belong to document " ++ toString document
  | .reported what => what

inductive TransactionFault where
  | markOutside
  | endWithoutBegin
  | vacuumInside
  | reported (what : String)
  deriving DecidableEq

def TransactionFault.message : TransactionFault → String
  | .markOutside => "mark_successful called outside a transaction"
  | .endWithoutBegin => "end called without a matching begin"
  | .vacuumInside => "cannot VACUUM inside a transaction"
  | .reported what => what

/-- A failure of the medium that holds the blobs. -/
inductive IoFault where
  | blobWrite
  | reported (what : String)
  deriving DecidableEq

def IoFault.message : IoFault → String
  | .blobWrite => "injected blob write failure"
  | .reported what => what

inductive StorageError where
  | table (fault : TableFault)
  | io (fault : IoFault)
  | notFound (what : Missing)
  | constraint (fault : ConstraintFault)
  | collision (doc : String)
  | transaction (fault : TransactionFault)
  | data (error : DataError)
  deriving DecidableEq

def StorageError.message : StorageError → String
  | .table fault => "sqlite error: " ++ fault.message
  | .io fault => "io error: " ++ fault.message
  | .notFound what => "not found: " ++ what.message
  | .constraint fault => "constraint violation: " ++ fault.message
  | .collision doc => "document collision: " ++ doc
  | .transaction fault => "transaction state: " ++ fault.message
  | .data error => "core error: " ++ error.message

/-! ### What a caller is told -/

/-- A write that was based on a state of the document that no longer holds. -/
inductive Conflict where
  | notWinner (doc : String) (rev winner : RevId)
  | notLeaf (doc : String) (rev : RevId)
  | reported (what : String)
  deriving DecidableEq

def Conflict.message : Conflict → String
  | .notWinner doc rev winner => revisionName doc rev ++ " is not the current revision (" ++ winner.text ++ ")"
  | .notLeaf doc rev => revisionName doc rev ++ " is not a leaf"
  | .reported what => what

/-- An argument that can never be accepted. -/
inductive InputFault where
  | data (error : DataError)
  | emptyDocumentId
  | emptyHistory (doc : String)
  | historyGap (doc : String) (older newer : RevId)
  | emptyAttachmentName
  | repeatedAttachment (name : String)
  | reported (what : String)
  deriving DecidableEq

def InputFault.message : InputFault → String
  | .data error => error.message
  | .emptyDocumentId => "document id is empty"
  | .emptyHistory doc => "empty revision history for " ++ doc
  | .historyGap doc older newer =>
    "revision history for " ++ doc ++ " jumps from " ++ older.text ++ " to " ++ newer.text
  | .emptyAttachmentName => "attachment name is empty"
  | .repeatedAttachment name => "attachment " ++ name ++ " supplied twice"
  | .reported what => what

/-- A state that correct data and correct commands cannot reach. -/
inductive Violation where
  | constraint (fault : ConstraintFault)
  | transaction (fault : TransactionFault)
  | data (error : DataError)
  | noWinner (doc : String)
  | vanished (sequence : Int)
  | copyCount (copied : Nat) (doc : String) (rev : RevId) (expected : Nat)
  | levelsLeftOpen (levels : Nat)
  | panicked
  | reported (what : String)
  deriving DecidableEq

def Violation.message : Violation → String
  | .constraint fault => fault.message
  | .transaction fault => fault.message
  | .data error => error.message
  | .noWinner doc => "document " ++ doc ++ " has no winner"
  | .vanished sequence => "revision " ++ toString sequence ++ " missing after insert"
  | .copyCount copied doc rev expected =>
    "copied " ++ toString copied ++ " attachments to " ++ revisionName doc rev ++
      ", expected " ++ toString expected
  | .levelsLeftOpen levels => "command left " ++ toString levels ++ " transaction level(s) open"
  | .panicked => "command panicked"
  | .reported what => what

/-- One item of a batch that could not be applied. -/
structure ItemFailure where
  doc : String
  /-- The last id of the item's history, empty if it has none. -/
  rev : String
  reason : String
  recoverable : Bool
  deriving DecidableEq

inductive StoreError where
  | notFound (what : Missing)
  | conflict (what : Conflict)
  | alreadyExists (doc : String)
  | invalidInput (fault : InputFault)
  | invariantViolation (what : Violation)
  | io (fault : IoFault)
  | storage (error : StorageError)
  | queueClosed
  | transactionAborted
  | partialFailure (applied : Nat) (failures : List ItemFailure)
  deriving DecidableEq

namespace StoreError

def message : StoreError → String
  | .notFound what => "not found: " ++ what.message
  | .conflict what => "conflict: " ++ what.message
  | .alreadyExists doc => "document already exists: " ++ doc
  | .invalidInput fault => "invalid input: " ++ fault.message
  | .invariantViolation what => "invariant violation: " ++ what.message
  | .io fault => "io error: " ++ fault.message
  | .storage error => "storage error: " ++ error.message
  | .queueClosed => "queue closed"
  | .transactionAborted => "transaction rolled back by a failed nested operation"
  | .partialFailure applied failures =>
    toString applied ++ " force-insert items applied, " ++ toString failures.length ++ " failed"

/-- Whether a caller may reasonably read again and retry. -/
def recoverable : StoreError → Bool
  | .notFound _ => true
  | .conflict _ => true
  | .alreadyExists _ => true
  | .io _ => true
  | .storage (.table _) => true
  | .storage (.io _) => true
  | .partialFailure _ failures => failures.all (·.recoverable)
  | _ => false

/-- Malformed ids and bodies come from the caller; other malformed data was stored that way. -/
def ofData : DataError → StoreError
  | .revisionId text => .invalidInput (.data (.revisionId text))
  | .body fault => .invalidInput (.data (.body fault))
  | .serialization detail => .invariantViolation (.data (.serialization detail))
  | .content fault => .invariantViolation (.data (.content fault))

def ofStorage : StorageError → StoreError
  | .notFound what => .notFound what
  | .collision doc => .alreadyExists doc
  | .constraint fault => .invariantViolation (.constraint fault)
  | .transaction fault => .invariantViolation (.transaction fault)
  | .io fault => .io fault
  | .data error => ofData error
  | .table fault => .storage (.table fault)

end StoreError

end RevisionForest
