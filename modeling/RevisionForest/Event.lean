import RevisionForest.RevId.Basic

/-!
# Change events

Every committed mutation of a document is announced by one event, which says who won before and who wins after.
-/

namespace RevisionForest

/-- The winning revision of a document, in brief. -/
structure Winner where
  rev : RevId
  sequence : Int
  deleted : Bool
  deriving DecidableEq

structure ChangeEvent where
  doc : String
  prev : Option Winner
  new : Option Winner
  deriving DecidableEq

namespace ChangeEvent

/-- The document did not exist before. -/
def isCreate (event : ChangeEvent) : Bool :=
  event.prev.isNone

/-- The document is left with a tombstone. -/
def isDelete (event : ChangeEvent) : Bool :=
  event.new.any (·.deleted)

end ChangeEvent

end RevisionForest
