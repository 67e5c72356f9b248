import RevisionForest.Attachment
import RevisionForest.Json.Printer

/-!
# Typed values in JSON

How the values of this library are read from JSON texts and written to them. Reading starts from the tree, so only what is asked for is given a meaning: an integer is a number without point and exponent that fits the wanted number of bits, and nothing is converted. Every value is read back from the text it is written as.
-/

namespace RevisionForest

namespace Json.Tree

def string? : Tree → Option String
  | .text pieces => pieceText? pieces
  | _ => none

/-- An integer of any size that 64 bits can hold, with or without sign. -/
def integral? : Tree → Option Int
  | .number literal =>
    match Number.ofLiteral? literal with
    | some (.integer value) => some value
    | _ => none
  | _ => none

/-- A natural number of so many bits. -/
def natural? (bits : Nat) (tree : Tree) : Option Nat := do
  let value ← tree.integral?
  if 0 ≤ value ∧ value < Nat.pow 2 bits then some value.toNat else none

/-- An integer of so many bits in two's complement. -/
def integer? (bits : Nat) (tree : Tree) : Option Int := do
  let value ← tree.integral?
  if -Nat.pow 2 (bits - 1) ≤ value ∧ value < Nat.pow 2 (bits - 1) then some value else none

/-- A value that may be absent. -/
def nullable? {α : Type} (tree : Tree) (read : Tree → Option α) : Option (Option α) :=
  match tree with
  | .null => some none
  | _ => (read tree).map some

end Json.Tree

open Json (Tree)

/-- Read a whole text as a value of some type. -/
def Json.read? {α : Type} (read : Tree → Option α) (text : String) : Option α :=
  (Tree.parse? text.length text).bind read

namespace RevId

def ofTree? (tree : Tree) : Option RevId :=
  tree.string?.bind parse?

def toJson (rev : RevId) : Json :=
  .text rev.text

end RevId

namespace Digest

/-- A digest is written as its bytes. -/
def ofTree? : Tree → Option Digest
  | .array items => do
    let bytes ← items.mapM (Tree.natural? 8)
    if h : (bytes.map UInt8.ofNat).length = 32 then some ⟨bytes.map UInt8.ofNat, h⟩ else none
  | _ => none

def toJson (digest : Digest) : Json :=
  .array (digest.bytes.map fun byte => .number (.integer byte.toNat))

end Digest

namespace Encoding

/-- The name of an encoding as a JSON value, which differs from the stored one in its first letter. -/
def label : Encoding → String
  | .plain => "Plain"
  | .gzip => "Gzip"

def ofLabel? (label : String) : Option Encoding :=
  [Encoding.plain, .gzip].find? fun encoding => encoding.label = label

/-- An encoding is written as its name; an object with that name as its only member, which is null, is read as well. -/
def ofTree? : Tree → Option Encoding
  | .object [(key, .null)] => (Json.pieceText? key).bind ofLabel?
  | tree => tree.string?.bind ofLabel?

def toJson (encoding : Encoding) : Json :=
  .text encoding.label

end Encoding

end RevisionForest
