import ChunkSelector.Proofs.Completion

/-!
# Overlong tokens in a text

Where a rule has declined an overlong token, the text has the token there at full length. Reading
stopped on it if the text in front of the error ends where the token begins, or with the token and blanks.
-/

namespace ChunkSelector

open Lexeme

theorem exists_append_of_utf8Length_le {a b x y : List Char} (same : a ++ x = b ++ y)
    (length : utf8Length a ≤ utf8Length b) : ∃ between, b = a ++ between ∧ x = between ++ y := by
  rcases List.append_eq_append_iff.mp same with ⟨between, left, right⟩ | ⟨extra, rfl, rfl⟩
  · exact ⟨between, left, right⟩
  · cases extra with
    | nil => exact ⟨[], by simp, by simp⟩
    | cons c extra =>
      have positive := utf8Length_pos (List.cons_ne_nil c extra)
      rw [utf8Length_append] at length
      omega

theorem begins_of_attributeIndex {text : List Char} (form : IsAttributeIndex text) : ∃ digits, text = 'a' :: digits := by
  cases form with
  | mk _ _ => exact ⟨_, rfl⟩

namespace Overlong

theorem StandsAt.lead {token : Overlong} {c : Cursor} (stands : token.StandsAt c.skipBlanks) :
    ChunkSelector.lead c.rest = some 'a' := by
  obtain ⟨after, written, form, -⟩ := stands.written
  obtain ⟨digits, begins⟩ := begins_of_attributeIndex form
  rw [ChunkSelector.lead, ← Cursor.rest_skipBlanks, written, begins]
  rfl

/-- The token stands in the text between what is before it and what is after it. -/
structure Cuts (token : Overlong) (text before after : List Char) : Prop where
  whole : text = before ++ (token.text ++ after)
  start : utf8Length before = token.start
  stop : utf8Length before + utf8Length token.text = token.stop
  form : IsAttributeIndex token.text
  ends : NoDigit after

variable {token : Overlong} {text before after : List Char}

theorem exists_cuts {p : Phrase α} (declines : p.Declines (.start text) token) :
    ∃ before after, token.Cuts text before after := by
  obtain ⟨m, ⟨ts, passes, viable⟩, stands⟩ := declines
  obtain ⟨after, written, form, ends⟩ := stands.written
  obtain ⟨before, whole⟩ := passes.2.suffix
  have split : text = before ++ m.rest.takeWhile isBlank ++ (token.text ++ after) := by
    rw [← written, Cursor.rest_skipBlanks, List.append_assoc, List.takeWhile_append_dropWhile, whole]
    rfl
  have total := m.textLength_skipBlanks.trans passes.1
  rw [Cursor.textLength_start, split, utf8Length_append, Cursor.textLength, written] at total
  have start := stands.start
  have stop := stands.stop
  exact ⟨_, after, split, by omega, by omega, form, ends⟩

theorem Cuts.alphanum (cuts : token.Cuts text before after) : ∀ c ∈ token.text, c.isAlphanum = true :=
  Grammar.alphanum_of_identifier (Grammar.identifier_of_attributeIndex cuts.form)

theorem Cuts.stoppedOn_iff {u x : List Char} (cuts : token.Cuts text before after) (split : text = u ++ x) :
    Trail.stoppedOn text (utf8Length u) token = true ↔
      u = before ∨ ∃ blanks, u = before ++ token.text ++ blanks ∧ Blank blanks := by
  have behind : token.stop = utf8Length (before ++ token.text) := by
    rw [utf8Length_append, cuts.stop]
  unfold Trail.stoppedOn
  rw [Bool.or_eq_true, Bool.and_eq_true, beq_iff_eq, decide_eq_true_eq, ← cuts.start, behind]
  constructor
  · rintro (same | ⟨le, blank⟩)
    · exact .inl (append_inj_of_utf8Length (split.symm.trans cuts.whole) same).1
    · have whole : before ++ token.text ++ after = u ++ x := by rw [← split, cuts.whole, List.append_assoc]
      obtain ⟨blanks, rfl, rfl⟩ := exists_append_of_utf8Length_le whole le
      refine .inr ⟨blanks, rfl, ?_⟩
      rw [split, List.append_assoc, splitAtOffset_append, utf8Length_append, Nat.add_sub_cancel_left,
        splitAtOffset_append] at blank
      exact fun c member => List.all_eq_true.mp blank c member
  · rintro (rfl | ⟨blanks, rfl, blank⟩)
    · exact .inl rfl
    · refine .inr ⟨by rw [utf8Length_append (before ++ token.text)]; omega, ?_⟩
      rw [split, List.append_assoc, splitAtOffset_append, utf8Length_append (before ++ token.text),
        Nat.add_sub_cancel_left, splitAtOffset_append]
      exact List.all_eq_true.mpr fun c member => blank c member

/-- Reading does not stop on a token in front of a character that is no part of it, further on than that character. -/
theorem Cuts.not_stoppedOn_across {front u x : List Char} {ch : Char} (cuts : token.Cuts (front ++ ch :: text) before after)
    (visible : isBlank ch = false) (other : ch.isAlphanum = false) (start : token.start ≤ utf8Length front)
    (split : front ++ ch :: text = u ++ x) (beyond : utf8Length front < utf8Length u) :
    Trail.stoppedOn (front ++ ch :: text) (utf8Length u) token = false := by
  obtain ⟨between, rfl, rest⟩ := exists_append_of_utf8Length_le split (by omega)
  obtain ⟨inner, rfl, -⟩ := exists_append_of_utf8Length_le (cuts.whole.symm) (by rw [cuts.start]; exact start)
  cases between with
  | nil => simp at beyond
  | cons _ between =>
    obtain ⟨rfl, -⟩ := List.cons.inj rest
    refine Bool.eq_false_iff.mpr fun stopped => ?_
    rcases (cuts.stoppedOn_iff split).mp stopped with same | ⟨blanks, same, blank⟩
    · have longer := congrArg List.length same
      simp at longer
    · -- The character would be one of the token or a blank behind it.
      rw [List.append_assoc, List.append_assoc] at same
      have member : ch ∈ token.text ++ blanks := by
        rw [← List.append_cancel_left same]
        simp
      rcases List.mem_append.mp member with inside | behind
      · rw [cuts.alphanum ch inside] at other
        cases other
      · rw [blank ch behind] at visible
        cases visible

end Overlong

end ChunkSelector
