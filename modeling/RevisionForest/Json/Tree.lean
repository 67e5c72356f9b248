import RevisionForest.Json.Token

/-!
# The tree of a JSON text

Tokens are arranged into a tree by a stack of the containers still open, so that deep texts need no deep recursion; beside the stack the builder counts how many more containers it may hold. The tree keeps everything as it was written: numbers unread, strings in pieces, members in order and with their repetitions. What a part of the text means is read from the tree later, and a part that nobody reads can hold a number too large for any double.
-/

namespace RevisionForest.Json

inductive Tree where
  | null
  | bool (value : Bool)
  | number (literal : Literal)
  | text (pieces : List Piece)
  | array (items : List Tree)
  | object (members : List (List Piece × Tree))

/-- A container that is still open, with what it holds so far, newest first. -/
inductive Frame where
  | array (items : List Tree)
  | object (members : List (List Piece × Tree))
  /-- An object after the colon of a member. -/
  | member (members : List (List Piece × Tree)) (key : List Piece)

/-- What has to come next. -/
inductive Expected where
  | value
  | firstItem
  | firstKey
  | key
  | colon (key : List Piece)
  | separator
  | nothing (whole : Tree)

structure Builder where
  stack : List Frame
  /-- How many more containers may be opened inside the open ones. -/
  room : Nat
  expected : Expected

namespace Builder

def start (depth : Nat) : Builder := ⟨[], depth, .value⟩

/-- Put a finished value where it belongs. -/
def finish? (stack : List Frame) (room : Nat) (value : Tree) : Option Builder :=
  match stack with
  | [] => some ⟨[], room, .nothing value⟩
  | .array items :: outer => some ⟨.array (value :: items) :: outer, room, .separator⟩
  | .member members key :: outer => some ⟨.object ((key, value) :: members) :: outer, room, .separator⟩
  | .object _ :: _ => none

/-- Open a container, if there is room for it. -/
def open? (stack : List Frame) (room : Nat) (frame : Frame) (expected : Expected) : Option Builder :=
  match room with
  | 0 => none
  | left + 1 => some ⟨frame :: stack, left, expected⟩

/-- A token where a value may come. -/
def value? (stack : List Frame) (room : Nat) (token : Token) : Option Builder :=
  match token with
  | .null => finish? stack room .null
  | .bool b => finish? stack room (.bool b)
  | .number literal => finish? stack room (.number literal)
  | .text pieces => finish? stack room (.text pieces)
  | .openArray => open? stack room (.array []) .firstItem
  | .openObject => open? stack room (.object []) .firstKey
  | _ => none

/-- Close the innermost container. -/
def close? (stack : List Frame) (room : Nat) (token : Token) : Option Builder :=
  match stack, token with
  | .array items :: outer, .closeArray => finish? outer (room + 1) (.array items.reverse)
  | .object members :: outer, .closeObject => finish? outer (room + 1) (.object members.reverse)
  | _, _ => none

def step? (builder : Builder) (token : Token) : Option Builder :=
  match builder.expected, token with
  | .value, _ => value? builder.stack builder.room token
  | .firstItem, .closeArray => close? builder.stack builder.room token
  | .firstItem, _ => value? builder.stack builder.room token
  | .firstKey, .closeObject => close? builder.stack builder.room token
  | .firstKey, .text key => some { builder with expected := .colon key }
  | .key, .text key => some { builder with expected := .colon key }
  | .colon key, .colon =>
    match builder.stack with
    | .object members :: outer => some { builder with stack := .member members key :: outer, expected := .value }
    | _ => none
  | .separator, .comma =>
    match builder.stack with
    | .array _ :: _ => some { builder with expected := .value }
    | .object _ :: _ => some { builder with expected := .key }
    | _ => none
  | .separator, _ => close? builder.stack builder.room token
  | _, _ => none

end Builder

/-- Read one value and nothing else, with at most `depth` containers inside each other. -/
def Tree.parse? (depth : Nat) (text : String) : Option Tree := do
  let last ← (← tokens? text.toList).foldlM Builder.step? (Builder.start depth)
  match last.expected with
  | .nothing whole => some whole
  | _ => none

/-! ### Strings -/

/-- The character that two 16-bit units stand for together. -/
def joinUnits (high low : Nat) : Char :=
  Char.ofNat (0x10000 + (high - 0xD800) * 0x400 + (low - 0xDC00))

def isHighUnit (n : Nat) : Bool := 0xD800 ≤ n && n ≤ 0xDBFF

def isLowUnit (n : Nat) : Bool := 0xDC00 ≤ n && n ≤ 0xDFFF

/-- The characters of a string; a unit that is half a character must stand beside its other half. -/
def pieceChars? : List Piece → Option (List Char)
  | [] => some []
  | .char c :: rest => (pieceChars? rest).map (c :: ·)
  | .unit high :: .unit low :: rest =>
    if isHighUnit high then
      if isLowUnit low then (pieceChars? rest).map (joinUnits high low :: ·) else none
    else if isLowUnit high then none
    else (pieceChars? (.unit low :: rest)).map (Char.ofNat high :: ·)
  | .unit n :: rest =>
    if isHighUnit n || isLowUnit n then none else (pieceChars? rest).map (Char.ofNat n :: ·)

def pieceText? (pieces : List Piece) : Option String :=
  (pieceChars? pieces).map String.ofList

end RevisionForest.Json
