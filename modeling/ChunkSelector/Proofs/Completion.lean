import ChunkSelector.Proofs.Expectation

/-!
# What a refused text may still become

An error stands behind text that some selector begins with (`Selector.parse_offset_viable`). It names the
place of an attempt, of an overlong token or of an invalid literal, and each of these stands where the
grammar may go on.
-/

namespace ChunkSelector

namespace Rule

variable {α : Type} {rule : Rule α} {phrase : Phrase α}

theorem toEnd_overlong (rule : Rule α) (c : Cursor) : (rule.toEnd c).trail.overlong = (rule c).trail.overlong := by
  cases verdict : (rule c).verdict with
  | matched v d =>
    cases visible : lead d.rest with
    | some ch =>
      rw [toEnd_of_lead verdict visible]
      exact List.append_nil _
    | none =>
      obtain ⟨e, ends⟩ := Token.endOfInput_of_blank (lead_eq_none_iff.mp visible)
      rw [toEnd, bind_of_matched verdict, bind_of_matched (by rw [ends]; rfl), ends]
      exact List.append_nil _
  | noMatch => rw [toEnd_of_noMatch verdict]
  | invalid error d => rw [toEnd_of_invalid verdict]

theorem furthest_le_bind {β : Type} {next : α → Rule β} {c : Cursor} :
    (rule c).trail.furthest ≤ ((rule >>= next) c).trail.furthest := by
  cases verdict : (rule c).verdict with
  | matched v d =>
    rw [bind_of_matched verdict]
    exact Trail.le_append_left
  | noMatch => exact Nat.le_of_eq (by rw [bind_of_noMatch verdict])
  | invalid error d => exact Nat.le_of_eq (by rw [bind_of_invalid verdict])

theorem toEnd_recalls (follows : Follows rule phrase) (c : Cursor) : (rule.toEnd c).trail.Recalls (phrase.Declines c) := by
  intro token member
  rw [toEnd_overlong] at member
  obtain ⟨within, declines⟩ := follows.recalls c token member
  exact ⟨Nat.le_trans within furthest_le_bind, declines⟩

/-- Where an error stands, the phrase goes on or ends. -/
theorem readAll_error (follows : Follows rule phrase) {text : String} {error : SyntaxError}
    (h : rule.readAll text = .error error) :
    ∃ ts d e, (Cursor.start text.toList).Passes ts d ∧ phrase.Next ts e ∧ d.skipBlanks.offset = error.offset := by
  rw [readAll_eq, Step.result] at h
  split at h
  · cases h
  · rename_i failed
    obtain rfl := Except.error.inj h
    unfold Trail.diagnose
    split
    · rename_i token last
      have member := List.mem_of_getLast? (Option.filter_eq_some_iff.mp last).1
      obtain ⟨m, ⟨ts, passes, viable⟩, stands⟩ := (toEnd_recalls follows _ token member).2
      exact ⟨ts, m, _, passes, .inl viable, stands.start.symm⟩
    · obtain ⟨e, more, first⟩ := List.exists_cons_of_ne_nil (toEnd_expected follows failed)
      have made := (toEnd_made follows failed).of_mem (by rw [first]; exact List.mem_cons_self)
      obtain ⟨ts, d, passes, offset, next⟩ := made
      exact ⟨ts, d, e, passes, next, offset⟩
  · rename_i d invalid
    obtain rfl := Except.error.inj h
    obtain ⟨e, m, ⟨ts, passes, viable⟩, fault⟩ := follows.faulty (toEnd_invalid invalid)
    exact ⟨ts, m, e, passes, .inl viable, fault.offset.symm⟩

end Rule

namespace Selector

theorem parse_error_iff {text : String} {error : SyntaxError} : parse text = .error error ↔
    (Grammar.selector.toEnd (.start text.toList)).verdict = .noMatch ∧
        (Grammar.selector.toEnd (.start text.toList)).trail.diagnose text.toList = error ∨
      ∃ d, (Grammar.selector.toEnd (.start text.toList)).verdict = .invalid error d := by
  unfold parse
  rw [Rule.readAll_eq]
  unfold Step.result
  split
  · rename_i verdict
    simp [verdict]
  · rename_i verdict
    simp [verdict]
  · rename_i verdict
    simp [verdict]

theorem parse_of_next {before : List Char} {ts : List Terminal} {e : Expected} (written : Written before ts)
    (next : Phrase.selector.Next ts e) : ∃ more selector, parse (.ofList (before ++ more)) = .ok selector := by
  rcases next with ⟨t, more, selector, -, read⟩ | ⟨-, selector, read⟩
  · have behind : Written (spaced (t :: more)) (t :: more) := ⟨[], spells_spaced (t :: more), blank_nil⟩
    exact ⟨' ' :: spaced (t :: more), selector, parse_of_written (written.join behind) read⟩
  · refine ⟨[], selector, ?_⟩
    rw [List.append_nil]
    exact parse_of_written written read

/-- The text in front of an error is the beginning of a selector. -/
theorem parse_offset_viable {text : String} {error : SyntaxError} (h : parse text = .error error) :
    ∃ before after, text.toList = before ++ after ∧ utf8Length before = error.offset ∧
      ∃ more selector, parse (.ofList (before ++ more)) = .ok selector := by
  obtain ⟨ts, d, e, passes, next, offset⟩ := Rule.readAll_error Grammar.selector_follows h
  obtain ⟨before, split, length, written, -⟩ := passes.written (Rule.next_lexemes Grammar.selector_follows next)
  exact ⟨before, _, split, length.trans offset, parse_of_next written next⟩

theorem parse_offset_viable_of_open_string :
    parse "0/f(1,\"x)" = .error (.ofUnterminated 6) ∧
      ∃ before after, "0/f(1,\"x)".toList = before ++ after ∧ utf8Length before = 6 ∧
        ∃ more selector, parse (.ofList (before ++ more)) = .ok selector := by
  have refused : parse "0/f(1,\"x)" = .error (.ofUnterminated 6) := by rfl
  exact ⟨refused, parse_offset_viable refused⟩

end Selector

end ChunkSelector
