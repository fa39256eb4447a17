import ChunkSelector.Proofs.Position
import ChunkSelector.Reading.Rule

/-!
# Shifts

What reading comes to does not depend on where in a text it begins, nor on the blanks in front. Two
cursors that see the same visible text give steps that are the same but for their offsets, which are
shifted by the distance of the two.
-/

namespace ChunkSelector

variable {k : Nat}

/-- The same visible text stands at both cursors, `k` bytes further on at the second. -/
structure Cursor.Shifted (k : Nat) (c d : Cursor) : Prop where
  rest : d.skipBlanks.rest = c.skipBlanks.rest
  offset : d.skipBlanks.offset = c.skipBlanks.offset + k

def SyntaxError.shift (k : Nat) (error : SyntaxError) : SyntaxError := { error with offset := error.offset + k }

def Overlong.shift (k : Nat) (token : Overlong) : Overlong := ⟨token.text, token.start + k, token.stop + k⟩

/-- The same attempts, `k` bytes further on. -/
structure Trail.Shifted (k : Nat) (a b : Trail) : Prop where
  expected : b.expected = a.expected
  overlong : b.overlong = a.overlong.map (Overlong.shift k)
  some : a.expected ≠ [] → b.furthest = a.furthest + k
  none : a.expected = [] → a.furthest = 0 ∧ b.furthest = 0

/-- Two steps that come to the same, `k` bytes further on in the second. -/
inductive Step.Shifted {α : Type} (k : Nat) (s s' : Step α) : Prop where
  | noMatch (here : s.verdict = .noMatch) (there : s'.verdict = .noMatch) (trails : s.trail.Shifted k s'.trail)
  | matched {v : α} {d d' : Cursor} (here : s.verdict = .matched v d) (there : s'.verdict = .matched v d')
      (next : d.Shifted k d') (trails : s.trail.Shifted k s'.trail)
  | invalid {error : SyntaxError} {d d' : Cursor} (here : s.verdict = .invalid error d)
      (there : s'.verdict = .invalid (error.shift k) d') (trails : s.trail.Shifted k s'.trail)

/-! ### Cursors -/

namespace Cursor

theorem shifted_of_eq {c d : Cursor} (rest : d.rest = c.rest) (offset : d.offset = c.offset + k) : c.Shifted k d where
  rest := by simp only [skipBlanks, past, rest]
  offset := by
    simp only [skipBlanks, past, rest, offset]
    omega

theorem Shifted.past {c d : Cursor} (h : c.Shifted k d) (piece after : List Char) :
    (c.skipBlanks.past piece after).Shifted k (d.skipBlanks.past piece after) := by
  apply shifted_of_eq
  · rfl
  · have offset := h.offset
    simp only [Cursor.past] at offset ⊢
    omega

end Cursor

/-! ### Trails -/

namespace Trail

theorem Shifted.empty : Trail.Shifted k .empty .empty where
  expected := rfl
  overlong := rfl
  some none := absurd rfl none
  none _ := ⟨rfl, rfl⟩

theorem Shifted.attempt {c d : Cursor} (h : c.Shifted k d) (wanted : Expected) :
    Trail.Shifted k (.attempt c.skipBlanks.offset wanted) (.attempt d.skipBlanks.offset wanted) where
  expected := rfl
  overlong := rfl
  some _ := h.offset
  none nothing := by cases nothing

theorem append_of_nothing_left {a b : Trail} (none : a.expected = []) (start : a.furthest = 0) :
    (a ++ b).furthest = b.furthest ∧ (a ++ b).expected = b.expected := by
  simp only [append_def, join, none, start, joinExpected]
  refine ⟨Nat.zero_max _, ?_⟩
  by_cases further : 0 < b.furthest
  · rw [if_pos further]
  · rw [if_neg further, if_pos (by omega)]
    simp

theorem append_of_nothing_right {a b : Trail} (none : b.expected = []) (start : b.furthest = 0) :
    (a ++ b).furthest = a.furthest ∧ (a ++ b).expected = a.expected := by
  simp [append_def, join, none, start, joinExpected]

theorem joinExpected_ne_nil {a b : List Expected} (h : a ≠ []) : joinExpected a b ≠ [] := by
  intro none
  exact h (List.append_eq_nil_iff.mp none).1

theorem append_expected_ne_nil {a b : Trail} (left : a.expected ≠ []) (right : b.expected ≠ []) :
    (a ++ b).expected ≠ [] := by
  simp only [append_def, join]
  split
  · exact right
  · split
    · exact joinExpected_ne_nil left
    · exact left

theorem Shifted.append {a b a' b' : Trail} (left : a.Shifted k a') (right : b.Shifted k b') :
    (a ++ b).Shifted k (a' ++ b') := by
  have overlong : (a' ++ b').overlong = (a ++ b).overlong.map (Overlong.shift k) := by
    simp only [append_def, join, left.overlong, right.overlong, List.map_append]
  by_cases noLeft : a.expected = []
  · obtain ⟨zero, zero'⟩ := left.none noLeft
    obtain ⟨furthest, expected⟩ := append_of_nothing_left (b := b) noLeft zero
    obtain ⟨furthest', expected'⟩ := append_of_nothing_left (b := b') (left.expected.trans noLeft) zero'
    refine ⟨?_, overlong, ?_, ?_⟩ <;> rw [expected]
    · rw [expected', right.expected]
    · rw [furthest, furthest']
      exact right.some
    · rw [furthest, furthest']
      exact right.none
  · by_cases noRight : b.expected = []
    · obtain ⟨zero, zero'⟩ := right.none noRight
      obtain ⟨furthest, expected⟩ := append_of_nothing_right (a := a) noRight zero
      obtain ⟨furthest', expected'⟩ := append_of_nothing_right (a := a') (right.expected.trans noRight) zero'
      refine ⟨?_, overlong, ?_, ?_⟩ <;> rw [expected]
      · rw [expected', left.expected]
      · rw [furthest, furthest']
        exact left.some
      · rw [furthest, furthest']
        exact left.none
    · have here := left.some noLeft
      have there := right.some noRight
      refine ⟨?_, overlong, fun _ => ?_, fun none => absurd none (append_expected_ne_nil noLeft noRight)⟩
      · simp only [append_def, join, here, there, left.expected, right.expected, Nat.add_lt_add_iff_right,
          Nat.add_right_cancel_iff]
      · simp only [append_def, join, here, there]
        omega

end Trail

/-! ### Steps -/

namespace Step

variable {α : Type} {s s' : Step α}

theorem Shifted.trails (h : s.Shifted k s') : s.trail.Shifted k s'.trail := by
  cases h with
  | noMatch _ _ trails => exact trails
  | matched _ _ _ trails => exact trails
  | invalid _ _ trails => exact trails

theorem Shifted.after {before before' : Trail} (first : before.Shifted k before') (h : s.Shifted k s') :
    (s.after before).Shifted k (s'.after before') := by
  cases h with
  | noMatch here there trails => exact .noMatch here there (first.append trails)
  | matched here there next trails => exact .matched here there next (first.append trails)
  | invalid here there trails => exact .invalid here there (first.append trails)

end Step

end ChunkSelector
