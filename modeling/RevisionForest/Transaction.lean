import RevisionForest.Tables.Damage

/-!
# Nested transactions

A database is a value of the tables with at most one open group of transaction levels. The first level opens the group and remembers the tables as they are; inner levels only add a mark. When the outermost level ends, the group commits if every level of it was marked successful before it ended, and otherwise the remembered tables come back. Events staged inside a group are handed out by its commit and by nothing else.

The physical transaction can be lost while the group is still open, because something else rolled it back. The group then remembers nothing to return to: later writes stay, and the commit fails.
-/

namespace RevisionForest

/-- An open group of levels. -/
structure Group where
  /-- The tables as the group found them, while the physical transaction is open. -/
  before : Option Tables
  /-- Whether the innermost level has been marked successful. -/
  marked : Bool
  /-- The marks of the levels around it, from the inside out. -/
  outer : List Bool
  /-- Whether all levels that have ended were marked. -/
  unbroken : Bool
  /-- The events staged so far, in order. -/
  staged : List ChangeEvent
  deriving DecidableEq

structure Database where
  tables : Tables := {}
  group : Option Group := none
  deriving DecidableEq

/-- What the end of a level did. -/
inductive Ending where
  | nested
  | committed (events : List ChangeEvent)
  | rolledBack
  deriving DecidableEq

abbrev Transaction := EStateM StorageError Database

namespace Database

/-- How many levels are open. -/
def depth (database : Database) : Nat :=
  match database.group with
  | none => 0
  | some group => group.outer.length + 1

def inTransaction (database : Database) : Bool :=
  database.group.isSome

/-- Close the group and return to the tables that it found, if it still knows them. -/
def rollBack (database : Database) (group : Group) : Database :=
  ⟨group.before.getD database.tables, none⟩

/-- Events staged outside a group are lost. -/
def stage (database : Database) (events : List ChangeEvent) : Database :=
  { database with group := database.group.map fun group => { group with staged := group.staged ++ events } }

/-- Close all levels without success. -/
def abandon (database : Database) : Database :=
  match database.group with
  | none => database
  | some group => database.rollBack group

end Database

namespace Transaction

/-- Open a level. -/
def begin : Transaction Unit :=
  modify fun database =>
    match database.group with
    | none => { database with group := some ⟨some database.tables, false, [], true, []⟩ }
    | some group => { database with group := some { group with marked := false, outer := group.marked :: group.outer } }

/-- Mark the innermost level successful. -/
def markSuccessful : Transaction Unit := do
  let database ← get
  match database.group with
  | none => throw (.transaction .markOutside)
  | some group => set { database with group := some { group with marked := true } }

/-- Close the innermost level, and with the last level the group. -/
def finish : Transaction Ending := do
  let database ← get
  match database.group with
  | none => throw (.transaction .endWithoutBegin)
  | some group =>
    let unbroken := group.unbroken && group.marked
    match group.outer with
    | marked :: outer =>
      set { database with group := some { group with marked, outer, unbroken } }
      return .nested
    | [] =>
      if !unbroken then
        set (database.rollBack group)
        return .rolledBack
      set { database with group := none }
      if group.before.isNone then
        throw (.table .nothingToCommit)
      return .committed group.staged

def stage (event : ChangeEvent) : Transaction Unit :=
  modify (·.stage [event])

/-- Run a statement on the tables. -/
def statement {α : Type} (action : Statement α) : Transaction α := fun database =>
  match action database.tables with
  | .ok value tables => .ok value { database with tables }
  | .error error tables => .error error { database with tables }

def query {α : Type} (read : Tables → Tables.Query α) : Transaction α :=
  statement (Statement.query read)

/-- Run an action as one level: the level is marked successful if the action succeeds, and ended either way. An error of the action counts before one of the ending. -/
def nested {α : Type} (action : Transaction α) : Transaction (α × Ending) := fun database =>
  match (begin *> action) database with
  | .ok value inside =>
    match (markSuccessful *> finish) inside with
    | .ok ending outside => .ok (value, ending) outside
    | .error error outside => .error error outside
  | .error error inside =>
    match finish inside with
    | .ok _ outside => .error error outside
    | .error _ outside => .error error outside

/-- Compaction changes nothing that can be read, and needs a database without open levels. -/
def vacuum : Transaction Unit := do
  if (← get).inTransaction then
    throw (.transaction .vacuumInside)

/-- Roll the physical transaction back from outside, unseen by the group. -/
def loseTransaction : Transaction Unit := do
  let database ← get
  match database.group with
  | some group =>
    match group.before with
    | some before => set { database with tables := before, group := some { group with before := none } }
    | none => throw (.table .nothingToRollBack)
  | none => throw (.table .nothingToRollBack)

end Transaction

end RevisionForest
