import RevisionForest.Decimal.Shortest
import RevisionForest.Json.Tree
import RevisionForest.Utf8

/-!
# JSON values

A value is what a text means: integers that fit 64 bits are exact, all other numbers are doubles, members are sorted by key and the last of equal keys counts. Values can be read from any text or bytes and written back compactly.
-/

namespace RevisionForest

open Decimal

namespace Json

inductive Number where
  | integer (value : Int)
  | real (negative : Bool) (magnitude : Magnitude)
  deriving DecidableEq, Repr

/-! ### Reading numbers -/

/-- Append digits to a number while it fits 64 bits; the digits left over follow. -/
def absorb (significand : Nat) : List Nat → Nat × List Nat
  | [] => (significand, [])
  | digit :: rest =>
    if significand * 10 + digit < Nat.pow 2 64 then absorb (significand * 10 + digit) rest
    else (significand, digit :: rest)

/-- Read a number. The digits that fit 64 bits are kept; of the later ones those before the point still count as places, those after it not at all. A number too large for a double is none. -/
def Number.ofLiteral? (literal : Literal) : Option Number :=
  let (whole, surplus) := absorb 0 literal.whole
  if literal.fraction.isNone && literal.exponent.isNone && surplus.isEmpty then
    if !literal.negative then
      some (.integer whole)
    else if whole = 0 ∨ Nat.pow 2 63 < whole then
      some (.real true (Magnitude.ofNat whole))
    else
      some (.integer (-whole))
  else
    let fraction := literal.fraction.getD []
    let (significand, dropped) := absorb whole fraction
    let places : Int := (surplus.length : Int) - (fraction.length - dropped.length : Nat)
    let exponent := literal.exponent.getD 0 + places
    ((Magnitude.ofNat significand).scaleTen? exponent).map (.real literal.negative)

end Json

inductive Json where
  | null
  | bool (value : Bool)
  | number (value : Json.Number)
  | text (value : String)
  | array (items : List Json)
  | object (members : List (String × Json))
  deriving Inhabited

namespace Json

/-- Of members in order of their keys, the last of each key. -/
def lastOfEachKey : List (String × Json) → List (String × Json)
  | [] => []
  | member :: rest =>
    match rest with
    | [] => [member]
    | next :: _ => if member.1 = next.1 then lastOfEachKey rest else member :: lastOfEachKey rest

/-- Members as a value holds them. -/
def sortMembers (members : List (String × Json)) : List (String × Json) :=
  lastOfEachKey (members.mergeSort fun left right => left.1 ≤ right.1)

mutual

/-- What a tree means, or nothing if it holds half a character or a number too large. -/
def ofTree? : Tree → Option Json
  | .null => some .null
  | .bool value => some (.bool value)
  | .number literal => (Number.ofLiteral? literal).map .number
  | .text pieces => (pieceText? pieces).map .text
  | .array items => (ofItems? items).map .array
  | .object members => (ofMembers? members).map fun read => .object (sortMembers read)

def ofItems? : List Tree → Option (List Json)
  | [] => some []
  | item :: rest => do return (← ofTree? item) :: (← ofItems? rest)

def ofMembers? : List (List Piece × Tree) → Option (List (String × Json))
  | [] => some []
  | (key, value) :: rest => do return (← pieceText? key, ← ofTree? value) :: (← ofMembers? rest)

end

/-- How many containers may stand inside each other. -/
def maxDepth : Nat := 127

def parse? (text : String) : Option Json :=
  (Tree.parse? maxDepth text).bind ofTree?

/-- Read the value that UTF-8 bytes spell. -/
def ofBytes? (bytes : Bytes) : Option Json :=
  (Utf8.decode? bytes).bind parse?

def isObject : Json → Bool
  | .object _ => true
  | _ => false

end Json

end RevisionForest
