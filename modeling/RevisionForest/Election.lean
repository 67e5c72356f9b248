import RevisionForest.Event

/-!
# Winner election

A document shows one of its leaves, the winner, and every peer that holds the same leaves shows the same one: a live leaf before any tombstone, then the highest generation, then the greatest text. More than one live leaf is a conflict.
-/

namespace RevisionForest

/-- What the election looks at of a revision without children. -/
structure Leaf where
  sequence : Int
  rev : RevId
  deleted : Bool
  deriving DecidableEq

namespace Leaf

def winner (leaf : Leaf) : Winner :=
  ⟨leaf.rev, leaf.sequence, leaf.deleted⟩

/-- Compare two leaves; the greater one wins. -/
def rank (left right : Leaf) : Ordering :=
  (compare right.deleted left.deleted).then
    ((compare left.rev.generation right.rev.generation).then (compare left.rev.text right.rev.text))

end Leaf

namespace Election

/-- The better of two leaves, the later one if neither outranks the other. -/
def better (earlier later : Leaf) : Leaf :=
  if earlier.rank later = .gt then earlier else later

/-- The winner among some leaves. -/
def winner? : List Leaf → Option Leaf
  | [] => none
  | first :: rest => some (rest.foldl better first)

/-- Whether more than one leaf is live. -/
def isConflicted (leaves : List Leaf) : Bool :=
  1 < leaves.countP fun leaf => !leaf.deleted

end Election

end RevisionForest
