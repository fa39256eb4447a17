import ChunkSelector.Proofs.Expectation
import ChunkSelector.Proofs.Relocation

/-!
# Leading blanks

Blanks in front of a text move its error to the right and change nothing else (`Selector.parse_blanks`).
-/

namespace ChunkSelector

variable {blanks text : List Char}

theorem Cursor.shifted_behind_blanks (blank : Blank blanks) (text : List Char) :
    (start text).Shifted (utf8Length blanks) (start (blanks ++ text)) where
  rest := List.dropWhile_append_of_pos blank
  offset := by
    simp only [start, skipBlanks, past, List.takeWhile_append_of_pos blank, utf8Length_append]
    omega

namespace Trail

variable {trail trail' : Trail}

theorem kindBetween_behind_blanks (blank : Blank blanks) (before after : List Char) (expected : List Expected) :
    kindBetween (blanks ++ before) after expected = kindBetween before after expected := by
  unfold kindBetween
  rw [lastVisible_append, lastVisible_eq_none_iff.mpr blank, Option.or_none]

theorem Shifted.behind {front : List Char} (h : trail.Shifted (utf8Length front) trail') (some : trail.expected ≠ []) :
    Behind front text trail trail' where
  furthest := h.some some
  expected := h.expected
  overlong := ⟨[], h.overlong, fun token member => by cases member⟩

end Trail

namespace Rule

variable {α : Type} {rule : Rule α} {phrase : Phrase α}

theorem readAll_blanks (follows : Follows rule phrase) {w text : String} (blank : Blank w.toList) :
    rule.readAll (w ++ text) = (rule.readAll text).mapError (SyntaxError.shift (utf8Length w.toList)) := by
  rw [readAll_eq, readAll_eq, String.toList_append, Step.result, Step.result]
  cases toEnd_shifted follows (Cursor.shifted_behind_blanks blank text.toList) with
  | matched here there _ _ =>
    rw [here, there]
    rfl
  | invalid here there _ =>
    rw [here, there]
    rfl
  | noMatch here there trails =>
    rw [here, there]
    have behind : Trail.Behind w.toList text.toList _ _ := trails.behind (toEnd_expected follows here)
    exact congrArg Except.error (behind.diagnose (Trail.kindBetween_behind_blanks blank _ _ _))

end Rule

namespace Selector

/-- With blanks in front a text is the same selector, or is refused for the same reason, further on by these blanks. -/
theorem parse_blanks {w text : String} (blank : Blank w.toList) :
    parse (w ++ text) = (parse text).mapError (SyntaxError.shift (utf8Length w.toList)) :=
  Rule.readAll_blanks Grammar.selector_follows blank

theorem parse_blanks_of_empty_section :
    parse ("\u3000 " ++ "0//1") = .error ⟨6, .emptySection '/', some "/"⟩ := by
  have refused : parse "0//1" = .error ⟨2, .emptySection '/', some "/"⟩ := by rfl
  have blank : Blank "\u3000 ".toList := by unfold Blank; decide
  rw [parse_blanks blank, refused]
  rfl

end Selector

end ChunkSelector
