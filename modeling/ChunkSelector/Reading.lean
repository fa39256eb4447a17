import ChunkSelector.Reading.Diagnosis
import ChunkSelector.Reading.Grammar

/-!
# Reading

`Rule.readAll` reads a whole text by one rule. `Selector.parse` and its companions do so for
the rules that stand on their own; what they refuse, they refuse with a `SyntaxError`.
-/

namespace ChunkSelector

/-- The value of a step that had to match the whole of `text`. -/
def Step.result (text : List Char) (step : Step α) : Except SyntaxError α :=
  match step.verdict with
  | .matched value _ => .ok value
  | .noMatch => .error (step.trail.diagnose text)
  | .invalid error _ => .error error

/-- Reads a text by a rule, with nothing but blanks after it. -/
def Rule.readAll (rule : Rule α) (text : String) : Except SyntaxError α :=
  let whole : Rule α := do
    let value ← rule
    Token.endOfInput
    return value
  (whole (.start text.toList)).result text.toList

def Selector.parse (text : String) : Except SyntaxError Selector := Grammar.selector.readAll text

def Hyperchunk.parse (text : String) : Except SyntaxError Hyperchunk :=
  Grammar.hyperchunk.readAll text

def Attribute.parse (text : String) : Except SyntaxError Attribute :=
  Grammar.attributeItem.readAll text

def Dimension.parse (text : String) : Except SyntaxError Dimension :=
  Grammar.dimension.readAll text

def Call.parse (text : String) : Except SyntaxError Call := Grammar.call.readAll text

end ChunkSelector
