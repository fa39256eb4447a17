import ChunkSelector.Canonical

/-!
# JSON

A `Json` value keeps the members of an object in the order given. `Json.text` writes it on one
line without blanks, or indented by two blanks a level.
-/

namespace ChunkSelector

inductive Json where
  | null
  | bool (value : Bool)
  | int (value : Int)
  | float (value : Binary64)
  | string (value : String)
  | array (items : List Json)
  | object (members : List (String × Json))

namespace Json

/-- How a value is laid out. -/
inductive Style where
  | compact
  | indented
  deriving DecidableEq

/-- The code of a control character, as four hexadecimal digits. -/
def controlEscape (c : Char) : List Char :=
  let digits := Nat.toDigits 16 c.toNat
  '\\' :: 'u' :: (List.replicate (4 - digits.length) '0' ++ digits)

/-- One character of a string: quotes, backslashes and control characters are escaped. -/
def escapeChar (c : Char) : List Char :=
  match c with
  | '"' => ['\\', '"']
  | '\\' => ['\\', '\\']
  | '\x08' => ['\\', 'b']
  | '\t' => ['\\', 't']
  | '\n' => ['\\', 'n']
  | '\x0c' => ['\\', 'f']
  | '\r' => ['\\', 'r']
  | c => if c.toNat < 0x20 then controlEscape c else [c]

def stringText (s : String) : List Char := '"' :: s.toList.flatMap escapeChar ++ ['"']

/-- The places of the first digit for which a float is written without an exponent. -/
def isPositional (place : Int) : Bool := -5 ≤ place && place ≤ 15

/-- The fewest digits that read back; of two equally near, the even one. What is not finite has
no number, and is written as null. -/
def floatText (x : Binary64) : List Char :=
  if x.isFinite then
    let d := Decimal.shortest .even x
    (if x.negative then ['-'] else []) ++
      if isPositional d.firstPlace then d.positional else d.scientific
  else "null".toList

/-- A new line at a depth, where lines are broken at all. -/
def newLine (style : Style) (depth : Nat) : List Char :=
  match style with
  | .compact => []
  | .indented => '\n' :: List.replicate (2 * depth) ' '

def colon : Style → List Char
  | .compact => [':']
  | .indented => [':', ' ']

/-- Texts in brackets, each on a line of its own one level deeper. Without texts, the brackets
stand alone. -/
def bracketed (style : Style) (depth : Nat) (opening closing : Char) : List (List Char) → List Char
  | [] => [opening, closing]
  | first :: more =>
    let line := newLine style (depth + 1)
    opening :: line ++ (',' :: line).intercalate (first :: more) ++ newLine style depth ++ [closing]

mutual

/-- The text of a value that stands at a depth. -/
def write (style : Style) (depth : Nat) : Json → List Char
  | .null => "null".toList
  | .bool true => "true".toList
  | .bool false => "false".toList
  | .int n => integerText n
  | .float x => floatText x
  | .string s => stringText s
  | .array items => bracketed style depth '[' ']' (writeItems style (depth + 1) items)
  | .object members =>
    bracketed style depth '\x7b' '\x7d' (writeMembers style (depth + 1) members)

def writeItems (style : Style) (depth : Nat) : List Json → List (List Char)
  | [] => []
  | first :: more => write style depth first :: writeItems style depth more

def writeMembers (style : Style) (depth : Nat) : List (String × Json) → List (List Char)
  | [] => []
  | (name, value) :: more =>
    (stringText name ++ colon style ++ write style depth value) :: writeMembers style depth more

end

def text (style : Style) (value : Json) : String := .ofList (write style 0 value)

end Json

end ChunkSelector
