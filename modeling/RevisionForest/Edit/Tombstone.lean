import RevisionForest.Edit.Basic
import RevisionForest.RevId.Fingerprint

/-!
# Tombstones

Deleting a live leaf adds a deleted child to it. The tombstone takes over the leaf's winner flag: if the leaf was a loser nothing else changes, since a tombstone can win only where no live leaf is left; if it was the winner, the election is held again and may find another live leaf.
-/

namespace RevisionForest.Edit

/-- Insert the tombstone of a live leaf. -/
def bury (doc : String) (rev : RevId) : Edit Revision := do
  let number ← documentNumber doc
  let target ← require (← query (·.getRevision doc rev)) (.notFound (.revision doc rev))
  if target.deleted then
    throw (.notFound (.deletedRevision doc rev))
  if !(← get).tables.isLeaf target.sequence then
    throw (.conflict (.notLeaf doc rev))
  let prev ← query (·.currentWinner number)
  if target.current then
    statement (Tables.setCurrent target.sequence false)
  let tombstone : NewRevision :=
    ⟨number, RevId.derive (some rev) true Body.empty [], some target.sequence, true, target.current, true, Body.empty⟩
  let sequence := (← statement (Tables.insertRevision tombstone)).sequence
  let new ← if target.current then statement (Tables.pickWinner number) else pure prev
  announce ⟨doc, prev, new⟩
  snapshot sequence

/-- The live leaves of a document, in order of their sequence. -/
def liveLeaves (doc : String) : Edit (List RevId) := do
  let leaves ← query (·.leafRevisions doc)
  return (leaves.filter fun leaf => !leaf.deleted).map (·.rev)

end RevisionForest.Edit
