import ChunkSelector.Proofs.Attempts
import ChunkSelector.Proofs.Border

/-!
# How far a rule looks

Where a rule has matched and what follows is what may follow, the rule has tried nothing further on
(`Rule.Predicts.visits_le`): no other text of the phrase begins like the one that it found and goes on
here.
-/

namespace ChunkSelector

theorem Cursor.Passes.skipBlanks_suffix {c d : Cursor} {ts : List Terminal} (h : c.Passes ts d) :
    d.skipBlanks.rest <:+ c.rest := (List.dropWhile_suffix isBlank).trans h.2.suffix

theorem Cursor.Passes.skipBlanks_le {c d : Cursor} {ts : List Terminal} (h : c.Passes ts d) :
    c.skipBlanks.offset ≤ d.skipBlanks.offset := by
  have lengths : c.skipBlanks.textLength = d.skipBlanks.textLength := by
    rw [textLength_skipBlanks, textLength_skipBlanks, h.1]
  simp only [textLength] at lengths
  refine Nat.le_of_not_lt fun before => ?_
  obtain ⟨extra, same⟩ := exists_append_of_suffix h.skipBlanks_suffix (List.dropWhile_suffix isBlank) (by
    rw [← rest_skipBlanks]; omega)
  -- A visible character would stand among the blanks in front of the first cursor's text.
  obtain ⟨front, whole⟩ := h.skipBlanks_suffix
  have cut : c.rest.takeWhile isBlank ++ c.rest.dropWhile isBlank = c.rest := List.takeWhile_append_dropWhile
  rw [same, ← List.append_assoc] at whole
  have blanks : c.rest.takeWhile isBlank = front ++ extra := List.append_cancel_right (cut.trans whole.symm)
  cases extra with
  | nil =>
    rw [List.nil_append, ← rest_skipBlanks] at same
    rw [same] at lengths
    omega
  | cons ch extra =>
    have visible : isBlank ch = false := head_dropWhile_stops isBlank d.rest ch (by rw [← rest_skipBlanks, same]; rfl)
    have blank : isBlank ch = true := mem_takeWhile_holds ch (by rw [blanks]; simp)
    rw [visible] at blank
    cases blank

/-- What stands behind the blanks at one cursor, up to what stands behind those at the other. -/
theorem Cursor.exists_between {c d m : Cursor} {ts us : List Terminal} (left : c.Passes ts d) (right : c.Passes us m)
    (le : d.skipBlanks.offset ≤ m.skipBlanks.offset) : ∃ between, d.skipBlanks.rest = between ++ m.skipBlanks.rest ∧
      d.skipBlanks.offset + utf8Length between = m.skipBlanks.offset := by
  have lengths : d.skipBlanks.textLength = m.skipBlanks.textLength := by
    rw [textLength_skipBlanks, textLength_skipBlanks, left.1, right.1]
  simp only [textLength] at lengths
  obtain ⟨between, same⟩ := exists_append_of_suffix left.skipBlanks_suffix right.skipBlanks_suffix (by omega)
  have sizes := congrArg utf8Length same
  rw [utf8Length_append] at sizes
  exact ⟨between, same, by omega⟩

namespace Rule

variable {α : Type} {rule : Rule α} {phrase : Phrase α} {follow : Char → Prop} {c d m : Cursor} {v : α} {e : Expected}

theorem Predicts.visits_le (predicts : Predicts rule phrase follow) (follows : Follows rule phrase)
    (matched : (rule c).verdict = .matched v d) (ends : ∀ ch ∈ lead d.rest, follow ch) (visits : phrase.Visits c e m) :
    m.skipBlanks.offset ≤ d.skipBlanks.offset := by
  refine Nat.le_of_not_lt fun beyond => ?_
  obtain ⟨ts, front, read⟩ := follows.sound matched
  obtain ⟨us, passes, t, more, w, -, longer⟩ := visits
  obtain ⟨between, split, length⟩ := Cursor.exists_between front passes (by omega)
  have blank : ∀ cursor : Cursor, Blank (cursor.rest.takeWhile isBlank) := fun _ => mem_takeWhile_holds
  have cut : ∀ cursor : Cursor, cursor.rest.takeWhile isBlank ++ cursor.skipBlanks.rest = cursor.rest :=
    fun _ => List.takeWhile_append_dropWhile
  -- Behind the terminals up to `m` stands the rest of a longer text of the phrase.
  have spelled := passes.2
  rw [← cut m] at spelled
  obtain ⟨p, whole, begun⟩ := spelled.exchange (stops_spaced (t :: more))
  have written := begun.append ((spells_spaced (t :: more)).after_blanks (blank m))
  obtain ⟨last, all, nothing⟩ := Cursor.exists_passes ⟨c.offset, p ++ spaced (t :: more)⟩ written
  have found := predicts.reads all longer (by simp [nothing, lead])
  -- The text that was found stands there as well, and what follows it is the same.
  have spelled := front.2
  rw [← cut d, split, ← List.append_assoc] at spelled
  obtain ⟨p', whole', first⟩ := spelled.exchange (stops_spaced (t :: more))
  obtain rfl : p' = p := List.append_cancel_right (whole'.symm.trans whole)
  obtain ⟨here, short, rest⟩ := Cursor.exists_passes ⟨c.offset, p' ++ spaced (t :: more)⟩ first
  cases between with
  | nil =>
    simp only [utf8Length] at length
    omega
  | cons ch between =>
    have visible : isBlank ch = false :=
      head_dropWhile_stops isBlank d.rest ch (by rw [← Cursor.rest_skipBlanks, split]; rfl)
    have same : lead here.rest = lead d.rest := by
      rw [rest, List.append_assoc, lead_append_of_blank (blank d), ← cut d, lead_append_of_blank (blank d), split]
      exact (lead_cons_of_visible visible _).trans (lead_cons_of_visible visible _).symm
    have again := predicts.reads short read (by rw [same]; exact ends)
    cases found.symm.trans again
    rw [nothing] at rest
    simp at rest

theorem Predicts.furthest_le (predicts : Predicts rule phrase follow) (follows : Follows rule phrase)
    (matched : (rule c).verdict = .matched v d) (ends : ∀ ch ∈ lead d.rest, follow ch) :
    (rule c).trail.furthest ≤ d.skipBlanks.offset := by
  cases expected : (rule c).trail.expected with
  | nil =>
    rw [(follows.made c).furthest_eq_zero expected]
    exact Nat.zero_le _
  | cons e more =>
    obtain ⟨ts, m, passes, offset, viable⟩ := (follows.made c).of_mem (by rw [expected]; exact List.mem_cons_self)
    rw [← offset]
    exact predicts.visits_le follows matched ends ⟨ts, passes, viable⟩

end Rule

end ChunkSelector
