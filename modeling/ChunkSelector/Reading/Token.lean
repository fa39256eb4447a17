import ChunkSelector.Number.Shortest
import ChunkSelector.Hyperchunk
import ChunkSelector.Reading.Lexeme
import ChunkSelector.Reading.Rule
import ChunkSelector.Text.Quoted

/-!
# Tokens

The rules for single tokens. Each skips blanks and then takes a whole lexeme; where there is
none, the attempt counts at the offset after the blanks.
-/

namespace ChunkSelector.Token

/-- The rule that takes a lexeme after blanks and gives it, and its offset, a meaning. -/
def lexeme (wanted : Expected) (cut : List Char → Option (List Char × List Char))
    (meaning : (text : List Char) → (start next : Cursor) → Step α) : Rule α := fun c =>
  let start := c.skipBlanks
  match cut start.rest with
  | some (text, after) => meaning text start (start.past text after)
  | none => ⟨.noMatch, .attempt start.offset wanted⟩

def matched (value : α) (next : Cursor) : Step α := ⟨.matched value next, .empty⟩

/-- A literal text such as `/` or `order:`, whatever follows it. -/
def symbol (text : String) : Rule Unit :=
  lexeme (.symbol text) (Lexeme.literally text.toList) fun _ _ next => matched () next

def endOfInput : Rule Unit :=
  lexeme .endOfInput (fun rest => if rest.isEmpty then some ([], []) else none)
    fun _ _ next => matched () next

/-! ### Numbers -/

def digitsValue (digits : List Char) : Nat := Nat.ofDigitChars 10 digits 0

def integerValue : List Char → Int
  | '-' :: digits => -digitsValue digits
  | digits => digitsValue digits

/-- The double nearest to what a float lexeme stands for. -/
def floatValue (text : List Char) : Binary64 :=
  let (minus, unsigned) := Lexeme.sign text
  let (whole, pointed) := Lexeme.digits unsigned
  let fraction := pointed.drop 1
  .ofDecimal (!minus.isEmpty) (digitsValue (whole ++ fraction)) (-(fraction.length : Int))

/-- A number that does not fit its type. -/
def outOfRange (text : List Char) (start next : Cursor) : Step α :=
  ⟨.invalid (.ofNumber text start.offset) next, .empty⟩

/-- An integer of 64 bits. A greater one is invalid. -/
def integer : Rule Int64 :=
  lexeme (.token .integer) Lexeme.integer fun text start next =>
    let n := integerValue text
    if Int64.minValue.toInt ≤ n ∧ n ≤ Int64.maxValue.toInt then matched (.ofInt n) next
    else outOfRange text start next

/-- A float. One beyond the greatest double is invalid. -/
def float : Rule Binary64 :=
  lexeme (.token .float) Lexeme.float fun text start next =>
    let x := floatValue text
    if x.isFinite then matched x next else outOfRange text start next

/-- A float where there is one, so that `3.` is a float and `3` is not. -/
def number : Rule Number := (.float <$> float) <|> (.int <$> integer)

/-! ### Names and strings -/

/-- An attribute index of 64 bits. A greater one does not match, for it may begin a name; it is
remembered, in case nothing gets past it. -/
def attributeIndex : Rule AttributeIndex :=
  lexeme (.token .attributeIndex) Lexeme.attributeIndex fun text start next =>
    let n := digitsValue (text.drop 1)
    if n < UInt64.size then matched (.ofNat n) next
    else
      ⟨.noMatch, { Trail.attempt start.offset (.token .attributeIndex) with
        overlong := [⟨text, start.offset, next.offset⟩] }⟩

def identifier : Rule String :=
  lexeme (.token .identifier) Lexeme.identifier fun text _ next => matched (.ofList text) next

/-- The first comparator, in the order of `Comparator.all`, that the text begins with. -/
def comparator : Rule Comparator := fun c =>
  let start := c.skipBlanks
  match Comparator.all.find? fun op => op.symbol.toList.isPrefixOf start.rest with
  | some op =>
    let text := op.symbol.toList
    matched op (start.past text (start.rest.drop text.length))
  | none => ⟨.noMatch, .attempt start.offset (.token .comparator)⟩

/-- A quoted string. One that does not end is invalid, and reading stops at its quote. -/
def string : Rule String := fun c =>
  let start := c.skipBlanks
  match start.rest with
  | '"' :: rest =>
    match Quoted.bodyOf rest with
    | some (body, after) =>
      matched (.ofList (Quoted.unescape body)) (start.past ('"' :: body ++ ['"']) after)
    | none => ⟨.invalid (.ofUnterminated start.offset) start, .empty⟩
  | _ => ⟨.noMatch, .attempt start.offset (.token .string)⟩

end ChunkSelector.Token
