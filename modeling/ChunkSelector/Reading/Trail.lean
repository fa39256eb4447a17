import ChunkSelector.Reading.SyntaxError

/-!
# Trails

A `Trail` is what reading remembers of its failed attempts: the furthest offset where one was
made, and what was expected there. Trails join with `++` in the order of the attempts, and
joining is associative, so the trail of a reading does not depend on how its steps are grouped.
-/

namespace ChunkSelector

/-- An attribute token from `start` to `stop` whose index does not fit. -/
structure Overlong where
  text : List Char
  start : Nat
  stop : Nat
  deriving DecidableEq

structure Trail where
  /-- The furthest offset of a failed attempt, zero if none was made. -/
  furthest : Nat
  /-- What was expected at the furthest offset, without repetition, in the order of the attempts. -/
  expected : List Expected
  /-- The overlong attribute tokens that were tried, in the order of the attempts. -/
  overlong : List Overlong
  deriving DecidableEq

namespace Trail

def empty : Trail := ⟨0, [], []⟩

def attempt (offset : Nat) (wanted : Expected) : Trail := ⟨offset, [wanted], []⟩

/-- A list followed by the members of another that are new to it. -/
def joinExpected (a b : List Expected) : List Expected := a ++ b.filter fun e => !a.contains e

/-- The attempts of `a` and then those of `b`. -/
def join (a b : Trail) : Trail where
  furthest := max a.furthest b.furthest
  expected :=
    if a.furthest < b.furthest then b.expected
    else if a.furthest = b.furthest then joinExpected a.expected b.expected
    else a.expected
  overlong := a.overlong ++ b.overlong

instance : Append Trail := ⟨join⟩

theorem append_def (a b : Trail) : a ++ b = join a b := rfl

theorem joinExpected_assoc (a b c : List Expected) :
    joinExpected (joinExpected a b) c = joinExpected a (joinExpected b c) := by
  simp only [joinExpected, List.append_assoc, List.filter_append, List.filter_filter]
  congr 2
  apply List.filter_congr
  intro e _
  by_cases ha : e ∈ a <;> by_cases hb : e ∈ b <;> simp [ha, hb]

@[simp] theorem empty_append (a : Trail) : empty ++ a = a := by
  cases a with
  | mk furthest expected overlong =>
    by_cases h : 0 < furthest
    · simp [append_def, join, empty, h]
    · simp [append_def, join, empty, joinExpected, show furthest = 0 by omega]

@[simp] theorem append_empty (a : Trail) : a ++ empty = a := by
  cases a with
  | mk furthest expected overlong =>
    by_cases h : furthest = 0
    · simp [append_def, join, empty, joinExpected, h]
    · simp [append_def, join, empty, h]

theorem append_assoc (a b c : Trail) : a ++ b ++ c = a ++ (b ++ c) := by
  simp only [append_def, join, Trail.mk.injEq, List.append_assoc, and_true]
  refine ⟨by omega, ?_⟩
  rcases Nat.lt_trichotomy a.furthest b.furthest with ab | ab | ab <;>
    rcases Nat.lt_trichotomy b.furthest c.furthest with bc | bc | bc
  all_goals grind [joinExpected_assoc]

end Trail

end ChunkSelector
