import RevisionForest.Attachment
import RevisionForest.Json.Basic

/-!
# Revisions

A revision as a reader sees it, and the rule for document bodies: any JSON object, kept byte for byte.
-/

namespace RevisionForest

/-- A snapshot of one stored revision. -/
structure Revision where
  doc : String
  /-- The number the store gave the document. -/
  number : Int
  rev : RevId
  /-- The place of the revision in the store's order of insertion. -/
  sequence : Int
  parent : Option Int
  deleted : Bool
  /-- Whether this is the winner of its document. -/
  current : Bool
  /-- Whether the body was supplied; a stub is known by its id only. -/
  available : Bool
  body : Bytes
  attachments : List Attachment
  deriving DecidableEq

namespace Body

/-- The body of tombstones and stubs. -/
def empty : Bytes := Utf8.encode "\x7b\x7d"

/-- Accept bytes that spell a JSON object. -/
def validate (body : Bytes) : Except DataError Unit :=
  match Json.ofBytes? body with
  | none => .error (.body .notJson)
  | some value => if value.isObject then .ok () else .error (.body .notObject)

/-- The value of any JSON text. -/
def value (body : Bytes) : Except DataError Json :=
  match Json.ofBytes? body with
  | none => .error (.serialization "not JSON text")
  | some value => .ok value

end Body

end RevisionForest
