/-!
# The tokens of a JSON text

A text is cut into punctuation, words and strings by one pass over its characters. Words are the runs between punctuation and blanks; whether a word is a literal or a number is settled when the run ends. Strings keep their `\u` escapes as numbers, because two of them together may stand for one character.
-/

namespace RevisionForest.Json

/-- One step of a string: a character, or the 16-bit unit of a numeric escape. -/
inductive Piece where
  | char (c : Char)
  | unit (n : Nat)
  deriving DecidableEq

/-- A number as it is written. -/
structure Literal where
  negative : Bool
  whole : List Nat
  fraction : Option (List Nat)
  exponent : Option Int
  deriving DecidableEq

inductive Token where
  | openArray
  | closeArray
  | openObject
  | closeObject
  | colon
  | comma
  | null
  | bool (value : Bool)
  | number (literal : Literal)
  | text (pieces : List Piece)
  deriving DecidableEq

/-! ### Words -/

def digitValues (digits : List Char) : List Nat :=
  digits.map fun c => c.toNat - '0'.toNat

/-- Read what follows the mantissa: nothing, or a signed exponent. -/
def parseExponent? (chars : List Char) : Option (Option Int) :=
  match chars with
  | [] => some none
  | mark :: rest =>
    let (negative, digits) := match rest with
      | '-' :: digits => (true, digits)
      | '+' :: digits => (false, digits)
      | digits => (false, digits)
    if (mark = 'e' ∨ mark = 'E') ∧ digits ≠ [] ∧ digits.all Char.isDigit then
      let value : Int := Nat.ofDigitChars 10 digits 0
      some (some (if negative then -value else value))
    else
      none

/-- Read a number: digits without leading zeros, perhaps a fraction, perhaps an exponent. -/
def parseNumber? (chars : List Char) : Option Literal := do
  let (negative, unsigned) := match chars with
    | '-' :: rest => (true, rest)
    | _ => (false, chars)
  let (whole, rest) := unsigned.span Char.isDigit
  guard (whole ≠ [] ∧ (whole.head? ≠ some '0' ∨ whole = ['0']))
  match rest with
  | '.' :: afterPoint =>
    let (fraction, tail) := afterPoint.span Char.isDigit
    guard (fraction ≠ [])
    return ⟨negative, digitValues whole, some (digitValues fraction), ← parseExponent? tail⟩
  | _ =>
    return ⟨negative, digitValues whole, none, ← parseExponent? rest⟩

def parseWord? (word : List Char) : Option Token :=
  if word = "null".toList then some .null
  else if word = "true".toList then some (.bool true)
  else if word = "false".toList then some (.bool false)
  else (parseNumber? word).map .number

def isWordChar (c : Char) : Bool :=
  c.isAlphanum || c == '-' || c == '+' || c == '.'

def isBlank (c : Char) : Bool :=
  c == ' ' || c == '\t' || c == '\n' || c == '\r'

def punctuation? : Char → Option Token
  | '[' => some .openArray
  | ']' => some .closeArray
  | '\x7b' => some .openObject
  | '\x7d' => some .closeObject
  | ':' => some .colon
  | ',' => some .comma
  | _ => none

/-! ### Escapes -/

/-- The character after a backslash, `u` apart. -/
def unescape? : Char → Option Char
  | '"' => some '"'
  | '\\' => some '\\'
  | '/' => some '/'
  | 'b' => some (Char.ofNat 8)
  | 'f' => some (Char.ofNat 12)
  | 'n' => some '\n'
  | 'r' => some '\r'
  | 't' => some '\t'
  | _ => none

def hexValue? (c : Char) : Option Nat :=
  if c.isDigit then some (c.toNat - 48)
  else if 'a' ≤ c ∧ c ≤ 'f' then some (c.toNat - 87)
  else if 'A' ≤ c ∧ c ≤ 'F' then some (c.toNat - 55)
  else none

/-! ### Scanning -/

/-- Where the scanner stands; everything gathered is held newest first. -/
inductive Mode where
  | between
  | word (chars : List Char)
  | string (pieces : List Piece)
  | escape (pieces : List Piece)
  | unicode (pieces : List Piece) (digits : Nat) (value : Nat)

structure Scanner where
  tokens : List Token
  mode : Mode

namespace Scanner

def start : Scanner := ⟨[], .between⟩

/-- Close a word, if one is open. -/
def closeWord? (scanner : Scanner) : Option (List Token) :=
  match scanner.mode with
  | .between => some scanner.tokens
  | .word chars => (parseWord? chars.reverse).map (· :: scanner.tokens)
  | _ => none

/-- A character outside strings. -/
def outside? (scanner : Scanner) (c : Char) : Option Scanner :=
  if isWordChar c then
    match scanner.mode with
    | .word chars => some { scanner with mode := .word (c :: chars) }
    | _ => some { scanner with mode := .word [c] }
  else do
    let tokens ← scanner.closeWord?
    if isBlank c then return ⟨tokens, .between⟩
    else if c = '"' then return ⟨tokens, .string []⟩
    else return ⟨(← punctuation? c) :: tokens, .between⟩

def step? (scanner : Scanner) (c : Char) : Option Scanner :=
  match scanner.mode with
  | .between => scanner.outside? c
  | .word _ => scanner.outside? c
  | .string pieces =>
    if c = '"' then some ⟨.text pieces.reverse :: scanner.tokens, .between⟩
    else if c = '\\' then some { scanner with mode := .escape pieces }
    else if c.toNat < 32 then none
    else some { scanner with mode := .string (.char c :: pieces) }
  | .escape pieces =>
    if c = 'u' then some { scanner with mode := .unicode pieces 0 0 }
    else (unescape? c).map fun plain => { scanner with mode := .string (.char plain :: pieces) }
  | .unicode pieces digits value => do
    let next := 16 * value + (← hexValue? c)
    if digits = 3 then return { scanner with mode := .string (.unit next :: pieces) }
    else return { scanner with mode := .unicode pieces (digits + 1) next }

end Scanner

/-- The tokens of a text, or nothing if some part of it is no token. -/
def tokens? (chars : List Char) : Option (List Token) := do
  let last ← chars.foldlM Scanner.step? Scanner.start
  return (← last.closeWord?).reverse

end RevisionForest.Json
