import RevisionForest.Election
import RevisionForest.Tables.Basic

/-!
# Reading the tables

Queries change nothing and fail only where a stored text no longer reads. A query that returns whole revisions reads all rows it selects, attachments included, so one unreadable row fails it even if the caller wants another row of the selection.
-/

namespace RevisionForest

/-- One page of the documents changed after some sequence. -/
structure Changes where
  results : List Revision
  /-- Where the next page starts. -/
  last : Int
  deriving DecidableEq

namespace Tables

abbrev Query (α : Type) := Except StorageError α

/-- Raise the error of a text that does not read. -/
def readStored {α : Type} : Except DataError α → Query α
  | .ok value => .ok value
  | .error error => .error (.data error)

/-! ### Rows -/

def readAttachment (row : AttachmentRow) : Query Attachment := do
  let encoding ← readStored (Encoding.parse row.encodingText)
  let digest ← readStored (Digest.parse row.digestText)
  return ⟨row.name, row.contentType, encoding, row.length, row.encodedLength, digest, row.revpos⟩

/-- The attachments of a revision, in order of their names. -/
def attachmentsFor (tables : Tables) (sequence : Int) : Query (List Attachment) :=
  let rows := tables.attachments.filter fun row => row.sequence = sequence
  (rows.mergeSort fun left right => left.name ≤ right.name).mapM readAttachment

def readLeaf (row : RevisionRow) : Query Leaf := do
  return ⟨row.sequence, ← readStored (RevId.parse row.revText), row.deleted⟩

def readWinner (row : RevisionRow) : Query Winner := do
  return ⟨← readStored (RevId.parse row.revText), row.sequence, row.deleted⟩

def readRevision (tables : Tables) (doc : String) (row : RevisionRow) : Query Revision := do
  let attachments ← tables.attachmentsFor row.sequence
  let rev ← readStored (RevId.parse row.revText)
  return ⟨doc, row.document, rev, row.sequence, row.parent, row.deleted, row.current, row.available,
    row.body, attachments⟩

/-! ### Documents -/

def documentNumber? (tables : Tables) (doc : String) : Option Int :=
  (tables.documents.find? fun row => row.id = doc).map (·.number)

def documentId? (tables : Tables) (number : Int) : Option String :=
  (tables.documents.find? fun row => row.number = number).map (·.id)

/-- The documents whose winner is live. -/
def documentCount (tables : Tables) : Nat :=
  tables.revisions.countP fun row => row.current && !row.deleted

/-- The documents with more than one live leaf, in order of their ids. -/
def conflictedIds (tables : Tables) : List String :=
  let conflicted := tables.documents.filter fun doc =>
    1 < (tables.leafRows doc.number).countP fun row => !row.deleted
  (conflicted.map (·.id)).mergeSort fun left right => left ≤ right

/-! ### Revisions -/

def rowAt? (tables : Tables) (sequence : Int) : Option RevisionRow :=
  tables.revisions.find? fun row => row.sequence = sequence

/-- The row of a revision; ids are compared by their text. -/
def rowOf? (tables : Tables) (document : Int) (rev : RevId) : Option RevisionRow :=
  tables.revisions.find? fun row => row.document = document && row.revText = rev.text

def sequenceOf? (tables : Tables) (document : Int) (rev : RevId) : Option Int :=
  (tables.rowOf? document rev).map (·.sequence)

/-- All revisions of a document that satisfy a condition, in order of their sequence. -/
def select (tables : Tables) (doc : String) (condition : RevisionRow → Bool) : Query (List Revision) :=
  match tables.documentNumber? doc with
  | none => .ok []
  | some number =>
    (tables.revisions.filter fun row => row.document = number && condition row).mapM (tables.readRevision doc)

def getRevision (tables : Tables) (doc : String) (rev : RevId) : Query (Option Revision) := do
  return (← tables.select doc fun row => row.revText = rev.text).head?

def getBySequence (tables : Tables) (sequence : Int) : Query (Option Revision) :=
  match tables.rowAt? sequence with
  | none => .ok none
  | some row =>
    match tables.documentId? row.document with
    | none => .ok none
    | some doc => (tables.readRevision doc row).map some

/-- The revision that is flagged as the winner. -/
def currentRevision (tables : Tables) (doc : String) : Query (Option Revision) := do
  return (← tables.select doc fun row => row.current).head?

def currentWinner (tables : Tables) (document : Int) : Query (Option Winner) :=
  match tables.revisions.find? fun row => row.document = document && row.current with
  | none => .ok none
  | some row => (readWinner row).map some

def leaves (tables : Tables) (document : Int) : Query (List Leaf) :=
  (tables.leafRows document).mapM readLeaf

def leafRevisions (tables : Tables) (doc : String) : Query (List Revision) :=
  tables.select doc fun row => tables.isLeaf row.sequence

/-! ### Histories -/

/-- The rows from a root down to the revision at `sequence`. The rows to search come newest first; a parent is older than its child, so one pass meets all ancestors. -/
def lineage (sequence : Int) : List RevisionRow → List RevisionRow
  | [] => []
  | row :: older =>
    if row.sequence = sequence then
      match row.parent with
      | none => [row]
      | some parent => lineage parent older ++ [row]
    else
      lineage sequence older

/-- The ids from the root to a revision, both included. -/
def revisionHistory (tables : Tables) (doc : String) (rev : RevId) : Query (List RevId) :=
  match tables.documentNumber? doc with
  | none => .error (.notFound (.document doc))
  | some number =>
    match tables.sequenceOf? number rev with
    | none => .error (.notFound (.revision doc rev))
    | some sequence =>
      (lineage sequence tables.revisions.reverse).mapM fun row => readStored (RevId.parse row.revText)

/-! ### Changes -/

/-- The newest row of each document that has a row after `since`, oldest first. -/
def newestAfter (tables : Tables) (since : Int) : List RevisionRow :=
  tables.revisions.filter fun row =>
    since < row.sequence &&
      !tables.revisions.any fun other => other.document = row.document && row.sequence < other.sequence

/-- How many rows a page has at most, of those there are. A limit counts as a signed number of 64 bits; if it is too great for one it comes out negative, and does not limit. -/
def pageLength (limit available : Nat) : Nat :=
  if limit < Nat.pow 2 63 then limit else available

/-- The winners of the documents changed after `since`, in order of their last change, at most `limit` of them. -/
def changes (tables : Tables) (since : Int) (limit : Nat) : Query Changes := do
  let listed := tables.newestAfter since
  let page := listed.take (pageLength limit listed.length)
  let found ← page.mapM fun row =>
    match tables.documentId? row.document with
    | none => .ok none
    | some doc => tables.currentRevision doc
  return ⟨found.filterMap id, page.foldl (fun last row => max last row.sequence) since⟩

/-! ### Local documents -/

def getLocal (tables : Tables) (id : String) : Query (Option LocalDocument) :=
  match tables.locals.find? fun row => row.id = id with
  | none => .ok none
  | some row => do return some ⟨id, ← readStored (RevId.parse row.revText), row.body⟩

/-- The id of the next version of a local document. -/
def nextLocalRev (tables : Tables) (id : String) : Query RevId := do
  let existing ← tables.getLocal id
  readStored (LocalDocument.revAfter (existing.elim 0 (·.rev.generation)))

end Tables

end RevisionForest
