/-!
# Syntax errors

A `SyntaxError` says where a text stops being a selector, and why. `message` is its wording.
-/

namespace ChunkSelector

/-- The kinds of token that no single text stands for. -/
inductive TokenClass where
  | integer
  | float
  | string
  | attributeIndex
  | identifier
  | comparator
  /-- A class known by its name only. -/
  | named (name : String)
  deriving DecidableEq

def TokenClass.name : TokenClass → String
  | integer => "integer"
  | float => "float"
  | string => "string"
  | attributeIndex => "attribute index"
  | identifier => "identifier"
  | comparator => "comparator"
  | named name => name

/-- What could have followed. -/
inductive Expected where
  | symbol (text : String)
  | token (kind : TokenClass)
  | endOfInput
  deriving DecidableEq

namespace Expected

/-- A symbol is quoted, a class of tokens goes by its name. -/
def describe : Expected → String
  | symbol text => s!"'{text}'"
  | token kind => kind.name
  | endOfInput => "end of input"

/-- A list in words: commas, and an `or` before the last item. -/
def describeAll (options : List Expected) : String :=
  match options.map describe with
  | [] => "valid selector"
  | [only] => only
  | many => ", ".intercalate many.dropLast ++ " or " ++ many.getLastD ""

end Expected

/-- Why a text is not a selector. -/
inductive SyntaxError.Kind where
  /-- A string without its closing quote. -/
  | unterminatedString
  /-- A number outside the range of its type. -/
  | invalidNumber (text : String)
  /-- Nothing between a separator and the next one or the end. -/
  | emptySection (separator : Char)
  /-- None of these follows. -/
  | expected (options : List Expected)
  deriving DecidableEq

/-- An error at an offset, with the piece of text found there, if one is quoted. -/
structure SyntaxError where
  offset : Nat
  kind : SyntaxError.Kind
  found : Option String
  deriving DecidableEq

namespace SyntaxError

def Kind.message : Kind → String
  | unterminatedString => "unterminated string literal"
  | invalidNumber text => s!"invalid number literal '{text}'"
  | emptySection separator => s!"empty section after '{separator}'"
  | expected options => s!"expected {Expected.describeAll options}"

def message (e : SyntaxError) : String :=
  let found := match e.found with
    | some piece => s!", found '{piece}'"
    | none => ""
  s!"{e.kind.message} at offset {e.offset}{found}"

/-- The error is about the shape of the selector and not about one literal. -/
def isStructural (e : SyntaxError) : Bool :=
  match e.kind with
  | .emptySection _ | .expected _ => true
  | .unterminatedString | .invalidNumber _ => false

/-- A literal that opens at `offset` and does not end. -/
def ofUnterminated (offset : Nat) : SyntaxError := ⟨offset, .unterminatedString, none⟩

/-- A number at `offset` that does not fit its type. -/
def ofNumber (text : List Char) (offset : Nat) : SyntaxError :=
  ⟨offset, .invalidNumber (.ofList text), none⟩

end SyntaxError

end ChunkSelector
