import RevisionForest.Tables.Query

/-!
# Changing the tables

A statement changes the tables or fails, and keeps what it changed before it failed. All statements but the copying of attachments are all or nothing. Numbers of documents and sequences are one more than the greatest in use, so a number given out and rolled back is given out again.
-/

namespace RevisionForest

abbrev Statement := EStateM StorageError Tables

namespace Statement

/-- Read the tables in the middle of a change. -/
def query {α : Type} (read : Tables → Tables.Query α) : Statement α := do
  match read (← get) with
  | .ok value => return value
  | .error error => throw error

end Statement

/-- A revision about to be inserted. -/
structure NewRevision where
  document : Int
  rev : RevId
  parent : Option Int
  deleted : Bool
  current : Bool
  available : Bool
  body : Bytes

/-- Where a revision is after its insertion: in a new row, or in the row it already had. -/
inductive Insertion where
  | inserted (n : Int)
  | existing (n : Int)
  deriving DecidableEq

def Insertion.sequence : Insertion → Int
  | .inserted n => n
  | .existing n => n

namespace Tables

/-- Ids are not empty; a text counts as empty from its first zero character on. -/
def isBlankId (doc : String) : Bool :=
  match doc.toList with
  | [] => true
  | first :: _ => first.toNat = 0

/-! ### Documents and revisions -/

def insertDocument (doc : String) : Statement Int := do
  let tables ← get
  if isBlankId doc || (tables.documentNumber? doc).isSome then
    throw (.collision doc)
  let number := tables.lastNumber + 1
  let row : DocumentRow := ⟨number, doc⟩
  set { tables with documents := tables.documents ++ [row] }
  return number

/-- Why a row cannot be inserted, if it cannot: its parent belongs elsewhere, its parent takes no children, or its document does not exist. -/
def refusal? (tables : Tables) (new : NewRevision) : Option StorageError :=
  match new.parent with
  | some parent =>
    if (tables.rowAt? parent).map (·.document) ≠ some new.document then
      some (.constraint (.foreignParent parent new.rev new.document))
    else if tables.barren.contains parent then
      some (.table .insertRefused)
    else
      none
  | none =>
    if (tables.documentId? new.document).isNone then some (.table .unknownReference) else none

/-- Insert a revision; one that the document already has is left as it is. -/
def insertRevision (new : NewRevision) : Statement Insertion := do
  let tables ← get
  match tables.sequenceOf? new.document new.rev with
  | some sequence => return .existing sequence
  | none =>
    match tables.refusal? new with
    | some error => throw error
    | none =>
      let sequence := tables.lastSequence + 1
      let row : RevisionRow :=
        ⟨sequence, new.document, new.parent, new.current, new.deleted, new.available, new.rev.text, new.body⟩
      set { tables with revisions := tables.revisions ++ [row] }
      return .inserted sequence

/-! ### The winner flag -/

/-- Set the flag of one row. -/
def flag (tables : Tables) (sequence : Int) (current : Bool) : Tables :=
  tables.mapRevisions fun row =>
    if row.sequence = sequence then { row with current := current } else row

def setCurrent (sequence : Int) (current : Bool) : Statement Unit := do
  let tables ← get
  if (tables.rowAt? sequence).isNone then
    throw (.notFound (.sequence sequence))
  set (tables.flag sequence current)

/-- Move the flag of a document onto one of its rows. -/
def crown (tables : Tables) (document sequence : Int) : Tables :=
  tables.mapRevisions fun row =>
    if row.sequence = sequence then { row with current := true }
    else if row.document = document then { row with current := false }
    else row

/-- Elect the winner among the leaves of a document and flag it. -/
def pickWinner (document : Int) : Statement (Option Winner) := do
  match Election.winner? (← Statement.query (·.leaves document)) with
  | none => return none
  | some leaf =>
    modify (·.crown document leaf.sequence)
    return some leaf.winner

/-! ### Attachments -/

def attachmentRow (sequence : Int) (attachment : Attachment) : AttachmentRow where
  sequence := sequence
  name := attachment.name
  digestText := attachment.digest.toHex
  contentType := attachment.contentType
  encodingText := attachment.encoding.name
  heldLength := Column.signed attachment.length
  heldEncodedLength := Column.signed attachment.encodedLength
  heldRevpos := Column.signed attachment.revpos

def insertAttachment (sequence : Int) (attachment : Attachment) : Statement Unit := do
  let tables ← get
  if tables.attachments.any fun row => row.sequence = sequence && row.name = attachment.name then
    throw (.table .duplicateAttachment)
  if (tables.rowAt? sequence).isNone then
    throw (.table .unknownReference)
  set { tables with attachments := tables.attachments ++ [attachmentRow sequence attachment] }

def insertAttachments (sequence : Int) : List Attachment → Statement Unit
  | [] => return ()
  | attachment :: rest => do
    insertAttachment sequence attachment
    insertAttachments sequence rest

/-- Give one revision the attachments of another, in order of their names, except those to skip; the answer is their number. -/
def copyAttachments (source target : Int) (skip : List String) : Statement Nat := do
  let attachments ← Statement.query (·.attachmentsFor source)
  let copied := attachments.filter fun attachment => !skip.contains attachment.name
  insertAttachments target copied
  return copied.length

/-! ### Local documents -/

/-- Write the row of a local document in place of the one it has, or behind all others. -/
def writeLocal (tables : Tables) (row : LocalRow) : Tables :=
  if tables.locals.any fun old => old.id = row.id then
    tables.mapLocals fun old => if old.id = row.id then row else old
  else
    { tables with locals := tables.locals ++ [row] }

/-- Write a local document; each version counts one more than the one it replaces. -/
def putLocal (id : String) (body : Bytes) : Statement LocalDocument := do
  let rev ← Statement.query (·.nextLocalRev id)
  modify (·.writeLocal ⟨id, rev.text, body⟩)
  return ⟨id, rev, body⟩

/-- Remove a local document; the answer is whether there was one. -/
def deleteLocal (id : String) : Statement Bool := do
  let tables ← get
  set { tables with locals := tables.locals.filter fun row => row.id ≠ id }
  return tables.locals.any fun row => row.id = id

end Tables

end RevisionForest
