import RevisionForest.Json.Typed

/-!
# Configuration

How a store is opened. A configuration is read from a JSON object of which every member may be missing; members that mean nothing to a store are passed over unread, so they may hold anything, but a member that is read may stand there only once. The values alone, in the order of the fields, are accepted as well.
-/

namespace RevisionForest

structure Config where
  /-- The file of the tables; without one they are kept in memory. -/
  path : Option String := none
  /-- The directory of the blobs; without one they are kept beside the tables. -/
  attachmentsDir : Option String := none
  busyTimeoutMs : Nat := 5000
  cacheSizeKib : Int := 32000
  /-- How many recent events are kept for readers who come late. -/
  changeHistory : Nat := 1024
  deriving DecidableEq, Repr

namespace Config

/-- Whether the tables outlive the store. -/
def keepsTables (config : Config) : Bool :=
  config.path.isSome

/-- Whether the blobs outlive the store. -/
def keepsBlobs (config : Config) : Bool :=
  config.path.isSome || config.attachmentsDir.isSome

inductive Field where
  | path
  | attachmentsDir
  | busyTimeoutMs
  | cacheSizeKib
  | changeHistory
  deriving DecidableEq

namespace Field

def all : List Field := [.path, .attachmentsDir, .busyTimeoutMs, .cacheSizeKib, .changeHistory]

def name : Field → String
  | .path => "path"
  | .attachmentsDir => "attachments_dir"
  | .busyTimeoutMs => "busy_timeout_ms"
  | .cacheSizeKib => "cache_size_kib"
  | .changeHistory => "change_history"

def ofName? (name : String) : Option Field :=
  all.find? fun field => field.name = name

end Field

open Json (Tree)

/-- Set one field to the value that a tree spells. -/
def set? (config : Config) (value : Tree) : Field → Option Config
  | .path => do return { config with path := ← value.nullable? Tree.string? }
  | .attachmentsDir => do return { config with attachmentsDir := ← value.nullable? Tree.string? }
  | .busyTimeoutMs => do return { config with busyTimeoutMs := ← value.natural? 64 }
  | .cacheSizeKib => do return { config with cacheSizeKib := ← value.integer? 64 }
  | .changeHistory => do return { config with changeHistory := ← value.natural? 64 }

/-- Read the members that have not been seen before. -/
def readMembers? (config : Config) (seen : List Field) : List (List Json.Piece × Tree) → Option Config
  | [] => some config
  | (key, value) :: rest => do
    match Field.ofName? (← Json.pieceText? key) with
    | none => readMembers? config seen rest
    | some field =>
      if seen.contains field then none
      else readMembers? (← config.set? value field) (field :: seen) rest

/-- Read values in the order of the fields. -/
def readItems? (config : Config) : List Field → List Tree → Option Config
  | _, [] => some config
  | [], _ :: _ => none
  | field :: fields, item :: items => do readItems? (← config.set? item field) fields items

/-- Read a configuration; what is not given has its default. -/
def parse? (text : String) : Option Config := do
  match ← Tree.parse? text.length text with
  | .object members => readMembers? {} [] members
  | .array items => readItems? {} Field.all items
  | _ => none

end Config

end RevisionForest
