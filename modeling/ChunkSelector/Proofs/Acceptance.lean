import ChunkSelector.Proofs.Prediction

/-!
# What is accepted

`Selector.parse_accepts`: the texts that are read are those that the published grammar derives, with
the selectors that it derives, and it never derives two.
-/

namespace ChunkSelector

namespace Token

variable {c d : Cursor}

theorem endOfInput_of_blank (h : Blank c.rest) : ∃ d, endOfInput c = matched () d := by
  have empty : c.skipBlanks.rest = [] := by
    rw [Cursor.rest_skipBlanks]
    exact List.head?_eq_none_iff.mp (lead_eq_none_iff.mpr h)
  exact ⟨_, lexeme_of_cut (by simp [empty]; exact ⟨rfl, rfl⟩)⟩

theorem endOfInput_of_lead {ch : Char} (h : lead c.rest = some ch) :
    endOfInput c = ⟨.noMatch, .attempt c.skipBlanks.offset .endOfInput⟩ := by
  obtain ⟨rest, same, -⟩ := dropWhile_of_lead h
  refine lexeme_of_none ?_
  rw [Cursor.rest_skipBlanks, same]
  rfl

theorem blank_of_endOfInput (h : (endOfInput c).verdict = .matched () d) : Blank c.rest := by
  cases visible : lead c.rest with
  | none => exact lead_eq_none_iff.mp visible
  | some ch =>
    rw [endOfInput_of_lead visible] at h
    cases h

end Token

namespace Rule

variable {α : Type} {rule : Rule α} {phrase : Phrase α} {follow : Char → Prop}

/-- A rule followed by the end of the input, as `readAll` runs it. -/
def toEnd (rule : Rule α) : Rule α := do
  let value ← rule
  Token.endOfInput
  return value

theorem readAll_eq (rule : Rule α) (text : String) :
    rule.readAll text = (rule.toEnd (.start text.toList)).result text.toList := rfl

theorem toEnd_matched_iff {c e : Cursor} {v : α} : (rule.toEnd c).verdict = .matched v e ↔
    ∃ d, (rule c).verdict = .matched v d ∧ (Token.endOfInput d).verdict = .matched () e := by
  constructor
  · intro h
    obtain ⟨w, d, first, rest⟩ := bind_matched_iff.mp h
    obtain ⟨_, _, ends, finish⟩ := bind_matched_iff.mp rest
    cases finish
    exact ⟨d, first, ends⟩
  · rintro ⟨d, first, ends⟩
    exact bind_matched_iff.mpr ⟨v, d, first, bind_matched_iff.mpr ⟨(), e, ends, rfl⟩⟩

theorem toEnd_of_blank {c d : Cursor} {v : α} (h : (rule c).verdict = .matched v d) (blank : Blank d.rest) :
    ∃ e, (rule.toEnd c).verdict = .matched v e := by
  obtain ⟨e, ends⟩ := Token.endOfInput_of_blank blank
  exact ⟨e, toEnd_matched_iff.mpr ⟨d, h, by rw [ends]; rfl⟩⟩

theorem readAll_eq_ok_iff_matched {text : String} {v : α} :
    rule.readAll text = .ok v ↔ ∃ e, (rule.toEnd (.start text.toList)).verdict = .matched v e := by
  rw [readAll_eq]
  unfold Step.result
  split
  · rename_i w e verdict
    constructor
    · rintro ⟨⟩
      exact ⟨e, verdict⟩
    · rintro ⟨_, same⟩
      cases verdict.symm.trans same
      rfl
  · rename_i verdict
    simp [verdict]
  · rename_i verdict
    simp [verdict]

theorem readAll_eq_ok_iff (follows : Follows rule phrase) (predicts : Predicts rule phrase follow) {text : String} {v : α} :
    rule.readAll text = .ok v ↔ ∃ ts tail, Spells text.toList ts tail ∧ Blank tail ∧ phrase ts v := by
  rw [readAll_eq_ok_iff_matched]
  constructor
  · rintro ⟨e, matched⟩
    obtain ⟨d, first, ends⟩ := toEnd_matched_iff.mp matched
    obtain ⟨ts, ⟨-, spelled⟩, read⟩ := follows.sound first
    exact ⟨ts, d.rest, spelled, Token.blank_of_endOfInput ends, read⟩
  · rintro ⟨ts, tail, spelled, blank, read⟩
    obtain ⟨d, passes, rfl⟩ := Cursor.exists_passes (.start text.toList) spelled
    have nothing : ∀ ch ∈ lead d.rest, follow ch := by
      rw [lead_eq_none_iff.mpr blank]
      simp
    exact toEnd_of_blank (predicts.reads passes read nothing) blank

end Rule

namespace Selector

theorem parse_eq_ok_iff {text : String} {selector : Selector} :
    parse text = .ok selector ↔ Derives text selector :=
  Rule.readAll_eq_ok_iff Grammar.selector_follows Grammar.selector_predicts

/-- Reading accepts exactly the published grammar, which derives a text as one selector only. -/
theorem parse_accepts (text : String) :
    (∀ selector, parse text = .ok selector ↔ Derives text selector) ∧ Subsingleton {selector // Derives text selector} := by
  refine ⟨fun selector => parse_eq_ok_iff, ⟨?_⟩⟩
  rintro ⟨a, left⟩ ⟨b, right⟩
  have same := (parse_eq_ok_iff.mpr left).symm.trans (parse_eq_ok_iff.mpr right)
  exact Subtype.ext (Except.ok.inj same)

end Selector

end ChunkSelector
