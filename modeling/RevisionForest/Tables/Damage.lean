import RevisionForest.Tables.Statement

/-!
# Damage

Faults for tests, made from outside: parents that refuse children, and stored texts overwritten by texts that no longer read. The rules of the tables still hold, so an id that the document already has and a digest of the wrong length are refused. Each overwriting answers how many rows it changed.
-/

namespace RevisionForest.Tables

/-- From now on no revision can be inserted under this one. -/
def refuseChildren (sequence : Int) : Statement Unit :=
  modify fun tables => { tables with barren := sequence :: tables.barren }

/-- The length of a text as the tables count it: up to its first zero character. -/
def textLength (text : String) : Nat :=
  (text.toList.takeWhile fun c => c.toNat ≠ 0).length

/-- Change the attachment rows of a revision. -/
def overwriteAttachments (sequence : Int) (change : AttachmentRow → AttachmentRow) : Statement Nat := do
  let tables ← get
  set (tables.mapAttachments fun row => if row.sequence = sequence then change row else row)
  return tables.attachments.countP fun row => row.sequence = sequence

def overwriteEncodings (sequence : Int) (text : String) : Statement Nat :=
  overwriteAttachments sequence fun row => { row with encodingText := text }

def overwriteDigests (sequence : Int) (text : String) : Statement Nat := do
  let tables ← get
  if tables.attachments.any (fun row => row.sequence = sequence) && textLength text ≠ 64 then
    throw (.table .digestLength)
  overwriteAttachments sequence fun row => { row with digestText := text }

def overwriteRevId (sequence : Int) (text : String) : Statement Nat := do
  let tables ← get
  match tables.rowAt? sequence with
  | none => return 0
  | some row =>
    if tables.revisions.any fun other =>
        other.document = row.document && other.sequence ≠ sequence && other.revText = text then
      throw (.table .duplicateRevision)
    set (tables.mapRevisions fun old =>
      if old.sequence = sequence then { old with revText := text } else old)
    return 1

def overwriteLocalRevIds (text : String) : Statement Nat := do
  let tables ← get
  set (tables.mapLocals fun row => { row with revText := text })
  return tables.locals.length

end RevisionForest.Tables
