import ChunkSelector.Reading.Cursor

/-!
# Positions in a text

Two cursors of one text agree on `textLength`, so the rest alone tells them apart. `lead` is the
first visible character at a cursor: no rule looks at the blanks in front of it.
-/

namespace ChunkSelector

def Blank (text : List Char) : Prop := ∀ c ∈ text, isBlank c = true

def lead (text : List Char) : Option Char := (text.dropWhile isBlank).head?

/-- What holds of all characters of a text is decided along the text. -/
instance (priority := high) decidableForallMem (p : Char → Prop) [DecidablePred p] (text : List Char) :
    Decidable (∀ c ∈ text, p c) :=
  List.decidableBAll p text

theorem blank_nil : Blank [] := by simp [Blank]

theorem blank_append {a b : List Char} : Blank (a ++ b) ↔ Blank a ∧ Blank b := by
  simp [Blank, or_imp, forall_and]

/-! ### Runs of one class of characters -/

theorem takeWhile_eq_of_stop {p : Char → Bool} {run after : List Char} (inside : ∀ c ∈ run, p c = true)
    (stop : ∀ c ∈ after.head?, p c = false) : (run ++ after).takeWhile p = run := by
  rw [List.takeWhile_append_of_pos inside]
  cases after with
  | nil => simp
  | cons c after => simp [stop c (by simp)]

theorem dropWhile_eq_of_stop {p : Char → Bool} {run after : List Char} (inside : ∀ c ∈ run, p c = true)
    (stop : ∀ c ∈ after.head?, p c = false) : (run ++ after).dropWhile p = after := by
  rw [List.dropWhile_append_of_pos inside]
  cases after with
  | nil => rfl
  | cons c after => simp [stop c (by simp)]

theorem head_dropWhile_stops (p : Char → Bool) (text : List Char) :
    ∀ c ∈ (text.dropWhile p).head?, p c = false := by
  intro c member
  have stopped := List.head?_dropWhile_not p text
  rw [Option.mem_def.mp member] at stopped
  simpa using stopped

theorem mem_takeWhile_holds {p : Char → Bool} {text : List Char} : ∀ c ∈ text.takeWhile p, p c = true := by
  induction text with
  | nil => simp
  | cons d text ih =>
    intro c member
    rw [List.takeWhile_cons] at member
    split at member
    · rcases List.mem_cons.mp member with rfl | member
      · assumption
      · exact ih c member
    · simp at member

/-! ### The first visible character -/

theorem lead_cons_of_visible {c : Char} (visible : isBlank c = false) (rest : List Char) :
    lead (c :: rest) = some c := by
  simp [lead, visible]

theorem lead_append_of_blank {blanks : List Char} (blank : Blank blanks) (text : List Char) :
    lead (blanks ++ text) = lead text := by
  unfold lead
  rw [List.dropWhile_append_of_pos blank]

theorem lead_eq_none_iff {text : List Char} : lead text = none ↔ Blank text := by
  unfold lead Blank
  induction text with
  | nil => simp
  | cons c text ih =>
    cases h : isBlank c
    · simp [h]
    · rw [List.dropWhile_cons, if_pos h, ih]
      simp [h]

theorem dropWhile_of_lead {text : List Char} {c : Char} (h : lead text = some c) :
    ∃ rest, text.dropWhile isBlank = c :: rest ∧ isBlank c = false := by
  obtain ⟨rest, same⟩ := List.head?_eq_some_iff.mp h
  refine ⟨rest, same, head_dropWhile_stops isBlank text c ?_⟩
  rw [same]
  rfl

/-! ### Cursors of one text -/

namespace Cursor

/-- The length of the whole text that a cursor stands in. -/
def textLength (c : Cursor) : Nat := c.offset + utf8Length c.rest

theorem textLength_start (text : List Char) : (start text).textLength = utf8Length text := by
  simp [textLength, start]

theorem textLength_past {c : Cursor} {piece after : List Char} (h : c.rest = piece ++ after) :
    (c.past piece after).textLength = c.textLength := by
  simp only [textLength, past, h, utf8Length_append]
  omega

theorem rest_skipBlanks (c : Cursor) : c.skipBlanks.rest = c.rest.dropWhile isBlank := rfl

@[simp] theorem textLength_skipBlanks (c : Cursor) : c.skipBlanks.textLength = c.textLength :=
  textLength_past List.takeWhile_append_dropWhile.symm

theorem ext_of_rest {c d : Cursor} (rest : c.rest = d.rest) (length : c.textLength = d.textLength) :
    c = d := by
  cases c
  cases d
  simp only [textLength] at *
  subst rest
  simp only [Cursor.mk.injEq, and_true]
  omega

theorem skipBlanks_of_blank {blanks text : List Char} (blank : Blank blanks)
    (visible : ∀ c ∈ text.head?, isBlank c = false) (offset : Nat) :
    skipBlanks ⟨offset, blanks ++ text⟩ = ⟨offset + utf8Length blanks, text⟩ := by
  simp only [skipBlanks, past, takeWhile_eq_of_stop blank visible, dropWhile_eq_of_stop blank visible]

theorem offset_le_skipBlanks (c : Cursor) : c.offset ≤ c.skipBlanks.offset := by
  simp [skipBlanks, past]

end Cursor

theorem utf8Length_le_of_suffix {a b : List Char} (h : a <:+ b) : utf8Length a ≤ utf8Length b := by
  obtain ⟨piece, rfl⟩ := h
  rw [utf8Length_append]
  omega

theorem utf8Length_pos {text : List Char} (h : text ≠ []) : 0 < utf8Length text := by
  cases text with
  | nil => exact absurd rfl h
  | cons c rest =>
    have := Char.utf8Size_pos c
    simp only [utf8Length]
    omega

/-- Of two ends of a text one is an end of the other, as their lengths say. -/
theorem exists_append_of_suffix {a b text : List Char} (ha : a <:+ text) (hb : b <:+ text)
    (length : utf8Length b ≤ utf8Length a) : ∃ between, a = between ++ b := by
  rcases List.suffix_or_suffix_of_suffix ha hb with ⟨extra, same⟩ | ⟨between, same⟩
  · cases extra with
    | nil => exact ⟨[], by simpa using same⟩
    | cons c extra =>
      have longer := congrArg utf8Length same
      have positive := utf8Length_pos (List.cons_ne_nil c extra)
      rw [utf8Length_append] at longer
      omega
  · exact ⟨between, same.symm⟩

end ChunkSelector
