import RevisionForest.Hex
import RevisionForest.Text.Unprintable

/-!
# Quoted text in messages

A message that shows a foreign text puts it in quotes, so that blanks, line ends and quotes in it can be told from the message. The quote in use, the backslash and the common control characters have short escapes; other unprintable characters are written by code point.
-/

namespace RevisionForest.Text

/-- The digits of a code point, without leading zeros. -/
def codePoint (c : Char) : String :=
  String.ofList (Nat.toDigits 16 c.toNat)

/-- One character inside the given quotes. -/
def escape (quote c : Char) : String :=
  if c = quote then "\\" ++ c.toString
  else if c = '\\' then "\\\\"
  else if c = '\n' then "\\n"
  else if c = '\r' then "\\r"
  else if c = '\t' then "\\t"
  else if c.toNat = 0 then "\\0"
  else if isUnprintable c then "\\u\x7b" ++ codePoint c ++ "\x7d"
  else c.toString

/-- A text in double quotes. -/
def quoted (text : String) : String :=
  "\"" ++ String.join (text.toList.map (escape '"')) ++ "\""

/-- A character in single quotes. -/
def quotedChar (c : Char) : String :=
  let quote := Char.ofNat 39
  quote.toString ++ escape quote c ++ quote.toString

end RevisionForest.Text
