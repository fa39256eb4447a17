import ChunkSelector.Reading.Cursor
import ChunkSelector.Reading.Trail
import ChunkSelector.Text.Word

/-!
# Diagnosis

`diagnose` turns the trail of a failed reading into the error to report. The error stands at the
furthest offset of a failed attempt, unless reading stopped on the overlong attribute token that
was tried last, or right after it; then it is about that token.
-/

namespace ChunkSelector

/-- The characters that separate sections, alternatives, dimensions and clauses. -/
def isSeparator (c : Char) : Bool := c == '/' || c == '|' || c == ';' || c == ','

namespace Trail

/-- Reading stopped on the token or after it, with only blanks between. -/
def stoppedOn (text : List Char) (furthest : Nat) (token : Overlong) : Bool :=
  furthest == token.start ||
    (token.stop ≤ furthest &&
      (splitAtOffset (splitAtOffset text token.stop).2 (furthest - token.stop)).1.all isBlank)

def lastVisible (text : List Char) : Option Char := text.reverse.find? fun c => !isBlank c

/-- What is wrong between the text before the furthest offset and the text after it. -/
def kindBetween (before after : List Char) (expected : List Expected) : SyntaxError.Kind :=
  match lastVisible before with
  | some c =>
    if isSeparator c && (after.head?.all isSeparator) then .emptySection c else .expected expected
  | none => .expected expected

/-- The error for a text whose reading failed with this trail. -/
def diagnose (text : List Char) (trail : Trail) : SyntaxError :=
  match trail.overlong.getLast?.filter (stoppedOn text trail.furthest) with
  | some token => .ofNumber token.text token.start
  | none =>
    let (before, after) := splitAtOffset text trail.furthest
    ⟨trail.furthest, kindBetween before after trail.expected, (leadingPiece after).map .ofList⟩

end Trail

end ChunkSelector
