import ChunkSelector.Reading.Cursor
import ChunkSelector.Reading.Trail

/-!
# Rules

A `Rule` reads a value at a cursor. It matches and moves on, does not match, or meets a literal
that no continuation makes valid. Where a rule does not match, the next alternative starts at the
same cursor; what remains of the failure is its trail.
-/

namespace ChunkSelector

inductive Verdict (α : Type) where
  /-- A value, and where reading goes on. -/
  | matched (value : α) (next : Cursor)
  | noMatch
  /-- A literal that can never become valid, and where its reading stopped. -/
  | invalid (error : SyntaxError) (stop : Cursor)

/-- What reading at a cursor came to. -/
structure Step (α : Type) where
  verdict : Verdict α
  trail : Trail

def Rule (α : Type) := Cursor → Step α

namespace Step

/-- The step with the attempts of `before` put in front. -/
def after (before : Trail) (s : Step α) : Step α := ⟨s.verdict, before ++ s.trail⟩

/-- Goes on from a match; anything else ends the sequence. -/
def andThen (s : Step α) (next : α → Rule β) : Step β :=
  match s.verdict with
  | .matched value cursor => (next value cursor).after s.trail
  | .noMatch => ⟨.noMatch, s.trail⟩
  | .invalid error stop => ⟨.invalid error stop, s.trail⟩

/-- Tries an alternative where nothing matched. -/
def orElse (s : Step α) (alternative : Unit → Step α) : Step α :=
  match s.verdict with
  | .noMatch => (alternative ()).after s.trail
  | .matched .. | .invalid .. => s

@[simp] theorem andThen_matched (value : α) (cursor : Cursor) (trail : Trail) (next : α → Rule β) :
    Step.andThen ⟨.matched value cursor, trail⟩ next = (next value cursor).after trail := rfl

@[simp] theorem andThen_noMatch (trail : Trail) (next : α → Rule β) :
    Step.andThen ⟨.noMatch, trail⟩ next = ⟨.noMatch, trail⟩ := rfl

@[simp] theorem andThen_invalid (error : SyntaxError) (stop : Cursor) (trail : Trail)
    (next : α → Rule β) :
    Step.andThen ⟨.invalid error stop, trail⟩ next = ⟨.invalid error stop, trail⟩ := rfl

@[simp] theorem orElse_matched (value : α) (cursor : Cursor) (trail : Trail)
    (alternative : Unit → Step α) :
    Step.orElse ⟨.matched value cursor, trail⟩ alternative = ⟨.matched value cursor, trail⟩ := rfl

@[simp] theorem orElse_noMatch (trail : Trail) (alternative : Unit → Step α) :
    Step.orElse ⟨.noMatch, trail⟩ alternative = (alternative ()).after trail := rfl

@[simp] theorem orElse_invalid (error : SyntaxError) (stop : Cursor) (trail : Trail)
    (alternative : Unit → Step α) :
    Step.orElse ⟨.invalid error stop, trail⟩ alternative = ⟨.invalid error stop, trail⟩ := rfl

end Step

namespace Rule

instance : Monad Rule where
  pure value := fun c => ⟨.matched value c, .empty⟩
  bind rule next := fun c => (rule c).andThen next

instance : OrElse (Rule α) where
  orElse rule alternative := fun c => (rule c).orElse fun _ => alternative () c

theorem bind_apply (rule : Rule α) (next : α → Rule β) (c : Cursor) :
    (rule >>= next) c = (rule c).andThen next := rfl

theorem orElse_apply (rule alternative : Rule α) (c : Cursor) :
    (rule <|> alternative) c = (rule c).orElse fun _ => alternative c := rfl

/-- Matches in any case, without moving where the rule does not match. -/
def optional (rule : Rule α) : Rule (Option α) := (some <$> rule) <|> pure none

/-- What the items of a list came to: those read, where reading them stopped, and the invalid
literal that stopped it, if one did. -/
structure Run (α : Type) where
  items : List α
  stop : Cursor
  fault : Option SyntaxError
  trail : Trail

namespace Run

/-- A run that ends before its first item. -/
def ofFailure (c : Cursor) (s : Step α) : Run α :=
  match s.verdict with
  | .invalid error stop => ⟨[], stop, some error, s.trail⟩
  | .matched .. | .noMatch => ⟨[], c, none, s.trail⟩

/-- The run with an item in front, and the attempts that were made up to it. -/
def cons (value : α) (before : Trail) (run : Run α) : Run α :=
  { run with items := value :: run.items, trail := before ++ run.trail }

/-- A list needs an item. -/
def toStep (run : Run α) : Step (List α) :=
  match run.fault, run.items with
  | some error, _ => ⟨.invalid error run.stop, run.trail⟩
  | none, [] => ⟨.noMatch, run.trail⟩
  | none, first :: more => ⟨.matched (first :: more) run.stop, run.trail⟩

end Run

/-- As many items as match one after the other. Each takes a character at least, so a `bound` that
is no shorter than the rest of the text does not run out. -/
def repeated (item : Rule α) : (bound : List Char) → Cursor → Run α
  | [], c => .ofFailure c (item c)
  | _ :: bound, c =>
    match item c with
    | ⟨.matched value next, trail⟩ => (repeated item bound next).cons value trail
    | step => .ofFailure c step

/-- An item, and then further ones with a separator before each. A separator without an item
is left where it is. -/
def run (separator : Rule Unit) (item : Rule α) (c : Cursor) : Run α :=
  match item c with
  | ⟨.matched value next, trail⟩ =>
    (repeated (do separator; item) next.rest next).cons value trail
  | step => .ofFailure c step

/-- One or more items with separators between them. -/
def separated (separator : Rule Unit) (item : Rule α) : Rule (List α) :=
  fun c => (run separator item c).toStep

end Rule

end ChunkSelector
