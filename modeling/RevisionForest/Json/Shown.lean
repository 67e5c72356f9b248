import RevisionForest.Answer
import RevisionForest.Config
import RevisionForest.Json.Typed

/-!
# Values shown as JSON

How revisions, events and the answers made of them are shown to a reader outside the library. A revision is shown whole, with its attachments; of a winner or a leaf only the id, the sequence and whether it is deleted. What may be absent is null.
-/

namespace RevisionForest

namespace Json

def ofInt (n : Int) : Json :=
  .number (.integer n)

def ofList {α : Type} (encode : α → Json) (values : List α) : Json :=
  .array (values.map encode)

def ofOption {α : Type} (encode : α → Json) : Option α → Json
  | none => .null
  | some value => encode value

/-- The length from which on bytes are only summed up. -/
def longBytes : Nat := 2000

/-- Bytes as text if they are text, else in hexadecimal; long ones as their length and digest. -/
def ofBytes (bytes : Bytes) : Json :=
  if longBytes < bytes.length then
    .object [("len", ofInt bytes.length), ("blake3", .text (Digest.of bytes).toHex)]
  else
    match Utf8.decode? bytes with
    | some spelled => .text spelled
    | none => .object [("hex", .text (String.ofList (Hex.encode bytes)))]

end Json

open Json (ofInt ofList ofOption ofBytes)

def Attachment.toJson (attachment : Attachment) : Json :=
  .object
    [("name", .text attachment.name),
      ("type", .text attachment.contentType),
      ("encoding", .text attachment.encoding.name),
      ("length", ofInt attachment.length),
      ("encoded_length", ofInt attachment.encodedLength),
      ("digest", .text attachment.digest.toHex),
      ("revpos", ofInt attachment.revpos)]

def Revision.toJson (revision : Revision) : Json :=
  .object
    [("doc", .text revision.doc),
      ("num", ofInt revision.number),
      ("rev", revision.rev.toJson),
      ("seq", ofInt revision.sequence),
      ("parent", ofOption ofInt revision.parent),
      ("deleted", .bool revision.deleted),
      ("current", .bool revision.current),
      ("available", .bool revision.available),
      ("body", ofBytes revision.body),
      ("attachments", ofList Attachment.toJson revision.attachments)]

def Winner.toJson (winner : Winner) : Json :=
  .object [("rev", winner.rev.toJson), ("seq", ofInt winner.sequence), ("deleted", .bool winner.deleted)]

def Leaf.toJson (leaf : Leaf) : Json :=
  leaf.winner.toJson

def ChangeEvent.toJson (event : ChangeEvent) : Json :=
  .object
    [("doc", .text event.doc),
      ("prev", ofOption Winner.toJson event.prev),
      ("new", ofOption Winner.toJson event.new),
      ("create", .bool event.isCreate),
      ("delete", .bool event.isDelete)]

def LocalDocument.toJson (document : LocalDocument) : Json :=
  .object [("doc", .text document.id), ("rev", document.rev.toJson), ("body", ofBytes document.body)]

def Changes.toJson (page : Changes) : Json :=
  .object [("results", ofList Revision.toJson page.results), ("last", ofInt page.last)]

def Contents.toJson (contents : Contents) : Json :=
  .object
    [("last", ofInt contents.lastSequence),
      ("count", ofInt contents.documentCount),
      ("conflicted", ofList .text contents.conflicted),
      ("revs", ofList Revision.toJson contents.revisions)]

def Ending.toJson : Ending → Json
  | .nested => .text "nested"
  | .rolledBack => .text "rolled_back"
  | .committed events => .object [("committed", ofList ChangeEvent.toJson events)]

/-- The events that were read, and how the reading ended. -/
def DrainEnd.toJson (events : List ChangeEvent) (ending : DrainEnd) : Json :=
  .object
    [("events", ofList ChangeEvent.toJson events),
      ("end", .text (match ending with
        | .empty => "empty"
        | .disconnected => "disconnected"
        | .more => "more"))]

def Config.toJson (config : Config) : Json :=
  .object
    [(Config.Field.path.name, ofOption .text config.path),
      (Config.Field.attachmentsDir.name, ofOption .text config.attachmentsDir),
      (Config.Field.busyTimeoutMs.name, ofInt config.busyTimeoutMs),
      (Config.Field.cacheSizeKib.name, ofInt config.cacheSizeKib),
      (Config.Field.changeHistory.name, ofInt config.changeHistory)]

end RevisionForest
