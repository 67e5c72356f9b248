import RevisionForest.Revision

/-!
# The tables

Everything a store persists besides blobs: documents, revisions, the attachment descriptions of revisions, and local documents. Ids, digests and encodings are held as text and lengths as signed numbers, and both are read again on every use, so a row can hold a text that no longer reads. Each table lists its rows in the order of their insertion, and numbers are given out upward, so revisions stand in order of their sequence. Tables are a plain value: an earlier value put back undoes everything since.
-/

namespace RevisionForest

structure DocumentRow where
  number : Int
  id : String
  deriving DecidableEq

structure RevisionRow where
  sequence : Int
  /-- The number of the document. -/
  document : Int
  /-- The sequence of the parent; a root has none. -/
  parent : Option Int
  current : Bool
  deleted : Bool
  available : Bool
  revText : String
  body : Bytes
  deriving DecidableEq

namespace Column

/-- How a number of 64 bits is held: columns are signed, so those of the upper half come out negative. Greater numbers, of which there are none, would stand for themselves. -/
def signed (n : Nat) : Int :=
  if Nat.pow 2 63 ≤ n ∧ n < Nat.pow 2 64 then n - Nat.pow 2 64 else n

/-- The number that is held. -/
def unsigned (held : Int) : Nat :=
  (if held < 0 then held + Nat.pow 2 64 else held).toNat

theorem unsigned_signed (n : Nat) : unsigned (signed n) = n := by
  have hbits : Nat.pow 2 63 = 9223372036854775808 ∧ Nat.pow 2 64 = 18446744073709551616 := by decide
  rw [unsigned, signed, hbits.1, hbits.2]
  split <;> split <;> omega

end Column

structure AttachmentRow where
  /-- The revision that the attachment belongs to. -/
  sequence : Int
  name : String
  digestText : String
  contentType : String
  encodingText : String
  heldLength : Int
  heldEncodedLength : Int
  heldRevpos : Int
  deriving DecidableEq

namespace AttachmentRow

def length (row : AttachmentRow) : Nat :=
  Column.unsigned row.heldLength

def encodedLength (row : AttachmentRow) : Nat :=
  Column.unsigned row.heldEncodedLength

def revpos (row : AttachmentRow) : Nat :=
  Column.unsigned row.heldRevpos

end AttachmentRow

structure LocalRow where
  id : String
  revText : String
  body : Bytes
  deriving DecidableEq

structure Tables where
  documents : List DocumentRow := []
  revisions : List RevisionRow := []
  attachments : List AttachmentRow := []
  locals : List LocalRow := []
  /-- Revisions that take no further children; empty except where a test makes inserts fail. -/
  barren : List Int := []
  deriving DecidableEq

/-- A document that is not replicated and has no history, only a count of its versions. -/
structure LocalDocument where
  id : String
  rev : RevId
  body : Bytes
  deriving DecidableEq

namespace LocalDocument

/-- The id of a version that follows `earlier` others, which are counted in 64 bits; there is no version zero. -/
def revAfter (earlier : Nat) : Except DataError RevId :=
  RevId.ofParts ((earlier + 1) % RevId.generationBound) "local"

end LocalDocument

namespace Tables

/-- The greatest document number in use, zero if there is none. -/
def lastNumber (tables : Tables) : Int :=
  tables.documents.foldl (fun greatest row => max greatest row.number) 0

/-- The greatest sequence in use, zero if there is none. -/
def lastSequence (tables : Tables) : Int :=
  tables.revisions.foldl (fun greatest row => max greatest row.sequence) 0

/-- Change revision rows one by one. -/
def mapRevisions (tables : Tables) (change : RevisionRow → RevisionRow) : Tables :=
  { tables with revisions := tables.revisions.map change }

/-- Change attachment rows one by one. -/
def mapAttachments (tables : Tables) (change : AttachmentRow → AttachmentRow) : Tables :=
  { tables with attachments := tables.attachments.map change }

/-- Change local documents one by one. -/
def mapLocals (tables : Tables) (change : LocalRow → LocalRow) : Tables :=
  { tables with locals := tables.locals.map change }

/-- A revision is a leaf while no stored revision names it as its parent. -/
def isLeaf (tables : Tables) (sequence : Int) : Bool :=
  !tables.revisions.any fun row => row.parent = some sequence

/-- The leaves of a document, in order of their sequence. -/
def leafRows (tables : Tables) (document : Int) : List RevisionRow :=
  tables.revisions.filter fun row => row.document = document && tables.isLeaf row.sequence

end Tables

end RevisionForest
