import ChunkSelector.Reading.Diagnosis
import ChunkSelector.Reading.Rule

/-!
# Readers

A `Reader` goes through one text rule by rule and keeps the trail of all that it tried.
-/

namespace ChunkSelector

/-- A text, the cursor in it, and what was tried so far. -/
structure Reader where
  text : List Char
  cursor : Cursor
  trail : Trail

namespace Reader

def ofText (text : List Char) : Reader := ⟨text, .start text, .empty⟩

/-- Tries a rule. The cursor stays where it is if the rule does not match. -/
def attempt (reader : Reader) (rule : Rule α) : Except SyntaxError (Option α) × Reader :=
  let step := rule reader.cursor
  let reader := { reader with trail := reader.trail ++ step.trail }
  match step.verdict with
  | .matched value next => (.ok (some value), { reader with cursor := next })
  | .noMatch => (.ok none, reader)
  | .invalid error stop => (.error error, { reader with cursor := stop })

/-- Goes back to an earlier cursor. What was tried is not forgotten. -/
def goTo (reader : Reader) (cursor : Cursor) : Reader := { reader with cursor }

/-- The error that names the furthest failure so far. -/
def diagnosis (reader : Reader) : SyntaxError := reader.trail.diagnose reader.text

end Reader

end ChunkSelector
