import RevisionForest.Hex
import RevisionForest.Json.Basic

/-!
# Writing JSON

Values are written without blanks, members in the order in which the value holds them. Strings escape the quote, the backslash and the control characters, and nothing else. Doubles are written with the fewest digits that read back.
-/

namespace RevisionForest

open Decimal

namespace Json

/-- Doubles are written out in full for first digits from 10^-5 to 10^15. -/
def realLayout : Layout := ⟨-5, 15⟩

def Number.render : Number → String
  | .integer value => toString value
  | .real negative magnitude =>
    let digits := if magnitude.significand = 0 then "0.0"
      else String.ofList (realLayout.write magnitude.shortest)
    if negative then "-" ++ digits else digits

def escapeChar (c : Char) : String :=
  if c = '"' then "\\\""
  else if c = '\\' then "\\\\"
  else if c = '\n' then "\\n"
  else if c = '\r' then "\\r"
  else if c = '\t' then "\\t"
  else if c.toNat = 8 then "\\b"
  else if c.toNat = 12 then "\\f"
  else if c.toNat < 32 then
    "\\u00" ++ String.ofList [Hex.digit (c.toNat / 16).toUInt8, Hex.digit (c.toNat % 16).toUInt8]
  else c.toString

def renderText (text : String) : String :=
  "\"" ++ String.join (text.toList.map escapeChar) ++ "\""

mutual

/-- The compact text of a value. -/
def render : Json → String
  | .null => "null"
  | .bool true => "true"
  | .bool false => "false"
  | .number value => value.render
  | .text value => renderText value
  | .array items => "[" ++ ",".intercalate (renderItems items) ++ "]"
  | .object members => "\x7b" ++ ",".intercalate (renderMembers members) ++ "\x7d"

def renderItems : List Json → List String
  | [] => []
  | item :: rest => render item :: renderItems rest

def renderMembers : List (String × Json) → List String
  | [] => []
  | (key, value) :: rest => (renderText key ++ ":" ++ render value) :: renderMembers rest

end

end Json

end RevisionForest
