import ChunkSelector.Proofs.Lexeme
import ChunkSelector.Reading.Token

/-!
# Phrases

The published grammar, without any order among alternatives and without any preference for long
lists. A `Phrase` relates a list of terminals to each value it may stand for; `Spells` relates a
text to the terminals written in it. `Selector.Derives` joins the two.
-/

namespace ChunkSelector

open Lexeme

/-- A token as it is written: its class and its characters. -/
structure Terminal where
  kind : Expected
  text : List Char
  deriving DecidableEq

/-- The token has its full length: numbers and names do not go on behind it. -/
def Terminal.EndsBefore (t : Terminal) (after : List Char) : Prop :=
  match t.kind with
  | .token .integer | .token .float | .token .attributeIndex => NoDigit after
  | .token .identifier => ∀ c ∈ after.head?, c.isAlphanum = false
  | _ => True

/-- The text reads as these terminals, with blanks before each, and then goes on with `after`. -/
inductive Spells : List Char → List Terminal → List Char → Prop where
  | nil (text : List Char) : Spells text [] text
  | cons {blanks : List Char} {t : Terminal} {rest : List Char} {ts : List Terminal} {after : List Char}
      (blank : Blank blanks) (ends : t.EndsBefore rest) (more : Spells rest ts after) :
      Spells (blanks ++ t.text ++ rest) (t :: ts) after

/-- What lists of terminals stand for. -/
def Phrase (α : Type) := List Terminal → α → Prop

namespace Phrase

instance : Monad Phrase where
  pure value := fun ts v => ts = [] ∧ v = value
  bind phrase next := fun ts v => ∃ first more a, ts = first ++ more ∧ phrase first a ∧ next a more v

def either (p q : Phrase α) : Phrase α := fun ts v => p ts v ∨ q ts v

/-- A phrase or nothing, `[p]`. -/
def maybe (p : Phrase α) : Phrase (Option α) := (some <$> p).either (pure none)

inductive Many (p : Phrase α) : List Terminal → List α → Prop where
  | nil : Many p [] []
  | cons {first more : List Terminal} {a : α} {as : List α} (head : p first a) (tail : Many p more as) :
      Many p (first ++ more) (a :: as)

def many (p : Phrase α) : Phrase (List α) := Many p

/-- `item (separator item)*` -/
def list (separator : Phrase Unit) (item : Phrase α) : Phrase (List α) := do
  let first ← item
  let more ← many (do separator; item)
  return first :: more

/-! ### Terminals -/

/-- One terminal of a class, standing for a value that its characters name. -/
def terminal (kind : Expected) (means : List Char → α → Prop) : Phrase α :=
  fun ts v => ∃ text, ts = [⟨kind, text⟩] ∧ means text v

def symbol (text : String) : Phrase Unit := terminal (.symbol text) fun t _ => t = text.toList

/-- The number is one of 64 bits. -/
def integer : Phrase Int64 :=
  terminal (.token .integer) fun t n => IsInteger t ∧ n.toInt = Token.integerValue t

def float : Phrase Binary64 :=
  terminal (.token .float) fun t x => IsFloat t ∧ x = Token.floatValue t ∧ x.isFinite = true

def attributeIndex : Phrase AttributeIndex :=
  terminal (.token .attributeIndex) fun t i => IsAttributeIndex t ∧ i.toNat = Token.digitsValue (t.drop 1)

def identifier : Phrase String :=
  terminal (.token .identifier) fun t name => IsIdentifier t ∧ name = .ofList t

def comparator : Phrase Comparator := terminal (.token .comparator) fun t op => t = op.symbol.toList

def string : Phrase String :=
  terminal (.token .string) fun t s =>
    ∃ body, IsBody body ∧ t = '"' :: body ++ ['"'] ∧ s = .ofList (Quoted.unescape body)

end Phrase

def Terminal.symbols : List String := [":", "...", "|", "/", ";", ",", "(", ")", "order:", "and", "or"]

/-- The characters are a token of the class. -/
def Terminal.IsLexeme (t : Terminal) : Prop :=
  match t.kind with
  | .symbol text => text ∈ symbols ∧ Phrase.symbol text [t] ()
  | .token .integer => ∃ n, Phrase.integer [t] n
  | .token .float => ∃ x, Phrase.float [t] x
  | .token .attributeIndex => ∃ i, Phrase.attributeIndex [t] i
  | .token .identifier => ∃ name, Phrase.identifier [t] name
  | .token .comparator => ∃ op, Phrase.comparator [t] op
  | .token .string => ∃ s, Phrase.string [t] s
  | .token (.named _) | .endOfInput => False

namespace Phrase

/-! ### The grammar -/

/-- `[int] ":" [int] [":" [int]]` -/
def slice : Phrase Slice := do
  let start ← maybe integer
  symbol ":"
  let stop ← maybe integer
  let step ← maybe (do symbol ":"; maybe integer)
  return ⟨start, stop, step.join⟩

/-- `slice | "..." | int` -/
def dimension : Phrase Dimension :=
  (.slice <$> slice).either ((do symbol "..."; return Dimension.ellipsis).either (.index <$> integer))

/-- `float | int` -/
def number : Phrase Number := (.float <$> float).either (.int <$> integer)

/-- `number | string` -/
def literal : Phrase Literal := (.number <$> number).either (.string <$> string)

/-- `attribute comparator literal` -/
def comparison : Phrase Comparison := do
  let index ← attributeIndex
  let op ← comparator
  return ⟨index, op, ← literal⟩

/-- Operands with a keyword between them. One alone stands for itself. -/
def chain (connective : Connective) (operand : Phrase Condition) : Phrase Condition :=
  .ofOperands connective <$> list (symbol connective.keyword) operand

/-- `conj ("or" conj)*`, where `conj` is `comparison ("and" comparison)*` -/
def condition : Phrase Condition := chain .or (chain .and (.comparison <$> comparison))

/-- `attribute | string | number` -/
def argument : Phrase Argument :=
  (.index <$> attributeIndex).either ((.string <$> string).either (.number <$> number))

/-- `identifier "(" [argument ("," argument)*] ")"` -/
def call : Phrase Call := do
  let name ← identifier
  symbol "("
  let arguments ← maybe (list (symbol ",") argument)
  symbol ")"
  return ⟨name, arguments.getD []⟩

/-- `condition | call | attribute | dimension` -/
def attributeItem : Phrase Attribute :=
  (.condition <$> condition).either
    ((.call <$> call).either ((.index <$> attributeIndex).either (.dimension <$> dimension)))

/-- `dimension ("," dimension)*` -/
def hyperslice : Phrase Hyperslice := list (symbol ",") dimension

/-- `item ("|" item)*` -/
def alternatives (item : Phrase α) : Phrase (List α) := list (symbol "|") item

/-- `["/" "order:" call] ["/" hyperslices]`, for there is neither without attributes. -/
def sections (arrays : List Dimension) : Option (List Attribute) → Phrase Hyperchunk
  | none => return ⟨arrays, none, none, none⟩
  | some attributes => do
    let order ← maybe (do symbol "/"; symbol "order:"; call)
    let hyperslices ← maybe (do symbol "/"; alternatives hyperslice)
    return ⟨arrays, some attributes, order, hyperslices⟩

/-- `arrays ["/" attributes ["/" "order:" call] ["/" hyperslices]]` -/
def hyperchunk : Phrase Hyperchunk := do
  let arrays ← alternatives dimension
  let attributes ← maybe (do symbol "/"; alternatives attributeItem)
  sections arrays attributes

/-- `hyperchunk (";" hyperchunk)*` -/
def selector : Phrase Selector := list (symbol ";") hyperchunk

/-! ### Reading the operators -/

variable {α β : Type} {p q : Phrase α} {ts : List Terminal}

@[simp] theorem pure_iff {value v : α} : (pure value : Phrase α) ts v ↔ ts = [] ∧ v = value := Iff.rfl

@[simp] theorem map_iff {f : α → β} {v : β} : (f <$> p) ts v ↔ ∃ a, p ts a ∧ v = f a := by
  constructor
  · rintro ⟨first, more, a, rfl, h, rfl, rfl⟩
    exact ⟨a, by simpa using h, rfl⟩
  · rintro ⟨a, h, rfl⟩
    exact ⟨ts, [], a, by simp, h, rfl, rfl⟩

@[simp] theorem either_iff {v : α} : (p.either q) ts v ↔ p ts v ∨ q ts v := Iff.rfl

@[simp] theorem maybe_iff {v : Option α} :
    p.maybe ts v ↔ (∃ a, p ts a ∧ v = some a) ∨ (ts = [] ∧ v = none) := by
  simp [maybe]

theorem maybe_some_iff {a : α} : p.maybe ts (some a) ↔ p ts a := by simp

theorem maybe_none_iff : p.maybe ts none ↔ ts = [] := by simp

end Phrase

/-- A text, the terminals written in it, and the selector they stand for. -/
def Selector.Reads (text : List Char) (ts : List Terminal) (selector : Selector) : Prop :=
  ∃ tail, Spells text ts tail ∧ Blank tail ∧ Phrase.selector ts selector

/-- The grammar derives the text as this selector. -/
def Selector.Derives (text : String) (selector : Selector) : Prop := ∃ ts, Reads text.toList ts selector

end ChunkSelector
