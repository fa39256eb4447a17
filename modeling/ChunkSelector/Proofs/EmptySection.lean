import ChunkSelector.Proofs.Blame
import ChunkSelector.Proofs.Filled
import ChunkSelector.Proofs.Prompt

/-!
# Empty sections

An error is about an empty section exactly where a text that some selector begins with ends with a separator,
and another separator or the end of the text follows (`Selector.parse_emptySection_iff`). Nothing can be
tried behind that place, for the grammar never has two separators together, and with a mark there everything
up to it is tried.
-/

namespace ChunkSelector

open Lexeme

/-! ### Outside strings -/

namespace Quoting

variable {text body a b p q : List Char}

theorem foldl_body (form : IsBody body) : body.foldl next .inside = .inside := by
  induction form with
  | nil => rfl
  | plain quote backslash _ _ ih => rw [List.foldl_cons, next, if_neg quote, if_neg backslash, ih]
  | escape c _ ih => rw [List.foldl_cons, List.foldl_cons, next, if_neg (by decide), if_pos rfl, next, ih]

theorem foldl_within (form : IsBody (p ++ q)) : p.foldl next .inside ≠ .outside := by
  generalize whole : p ++ q = body at form
  induction form generalizing p with
  | nil =>
    obtain ⟨rfl, -⟩ := List.append_eq_nil_iff.mp whole
    decide
  | @plain c body quote backslash _ _ ih =>
    cases p with
    | nil => decide
    | cons d p =>
      obtain ⟨rfl, rest⟩ := List.cons.inj whole
      rw [List.foldl_cons, next, if_neg quote, if_neg backslash]
      exact ih rest
  | @escape c body _ ih =>
    cases p with
    | nil => decide
    | cons d p =>
      obtain ⟨rfl, rest⟩ := List.cons.inj whole
      rw [List.foldl_cons, next, if_neg (by decide), if_pos rfl]
      cases p with
      | nil => decide
      | cons d p =>
        exact ih (List.cons.inj rest).2

theorem outside_of_settled (h : Settled text) : text.foldl next .outside = .outside := by
  induction h with
  | nil => rfl
  | plain quote _ ih => rw [List.foldl_cons, next, if_neg quote, ih]
  | string form _ ih =>
    rw [List.foldl_cons, next, if_pos rfl, List.foldl_append, foldl_body form, List.foldl_cons, next, if_pos rfl, ih]

/-- A settled text is settled wherever it is outside of strings. -/
theorem settled_of_outside (h : Settled (a ++ b)) (outside : a.foldl next .outside = .outside) : Settled a := by
  generalize whole : a ++ b = text at h
  induction h generalizing a with
  | nil =>
    obtain ⟨rfl, -⟩ := List.append_eq_nil_iff.mp whole
    exact .nil
  | @plain c text quote _ ih =>
    cases a with
    | nil => exact .nil
    | cons d a =>
      obtain ⟨rfl, rest⟩ := List.cons.inj whole
      rw [List.foldl_cons, next, if_neg quote] at outside
      exact .plain quote (ih outside rest)
  | @string body text form _ ih =>
    cases a with
    | nil => exact .nil
    | cons d a =>
      obtain ⟨rfl, rest⟩ : d = '"' ∧ a ++ b = body ++ '"' :: text := List.cons.inj whole
      rw [List.foldl_cons, next, if_pos rfl] at outside
      rcases List.append_eq_append_iff.mp rest with ⟨extra, rfl, -⟩ | ⟨extra, rfl, behind⟩
      · exact absurd outside (foldl_within form)
      · rw [List.foldl_append, foldl_body form] at outside
        cases extra with
        | nil => cases outside
        | cons d extra =>
          obtain ⟨rfl, further⟩ := List.cons.inj behind
          rw [List.foldl_cons, next, if_pos rfl] at outside
          exact .string form (ih outside further.symm)

theorem outside_of_plain {quoting : Quoting} (plain : ∀ c ∈ text, c ≠ '"') (h : text.foldl next quoting = .outside) :
    quoting = .outside := by
  induction text generalizing quoting with
  | nil => exact h
  | cons c text ih =>
    have quote := plain c (by simp)
    have first := ih (fun d member => plain d (by simp [member])) h
    cases quoting with
    | outside => rfl
    | inside =>
      rw [next, if_neg quote] at first
      split at first <;> cases first
    | escaped => cases first

end Quoting

namespace Trail

variable {text before after : List Char} {trail : Trail} {n : Nat} {c : Char} {found : Option String}

theorem diagnose_emptySection (split : text = before ++ after) (length : utf8Length before = trail.furthest)
    (h : trail.diagnose text = ⟨n, .emptySection c, found⟩) : trail.furthest = n ∧ lastVisible before = some c ∧
      isSeparator c = true ∧ after.head?.all isSeparator = true ∧ found = (leadingPiece after).map .ofList := by
  unfold diagnose at h
  split at h
  · cases h
  · rw [← length, split, splitAtOffset_append] at h
    dsimp only at h
    obtain ⟨furthest, kind, rfl⟩ := SyntaxError.mk.inj h
    unfold kindBetween at kind
    split at kind
    · rename_i last
      split at kind
      · rename_i both
        obtain ⟨separates, next⟩ := Bool.and_eq_true_iff.mp both
        cases kind
        exact ⟨length.symm.trans furthest, last, separates, next, rfl⟩
      · cases kind
    · cases kind

theorem diagnose_of_separators (split : text = before ++ after) (length : utf8Length before = trail.furthest)
    (last : lastVisible before = some c) (separates : isSeparator c = true) (next : after.head?.all isSeparator = true)
    (away : ∀ token ∈ trail.overlong, stoppedOn text trail.furthest token = false) :
    trail.diagnose text = ⟨trail.furthest, .emptySection c, (leadingPiece after).map .ofList⟩ := by
  rw [diagnose_of_away fun token final => away token (List.mem_of_getLast? final), ← length, split, splitAtOffset_append]
  simp only [kindBetween, last, separates, next, Bool.and_self, if_true]

end Trail

theorem leadingPiece_of_separator {after : List Char} (next : after.head?.all isSeparator = true) :
    (leadingPiece after).map String.ofList = after.head?.map String.singleton := by
  cases after with
  | nil => rfl
  | cons d after =>
    have apart : ∀ d ∈ separators, isWordChar d = false := by decide
    simp [leadingPiece, apart d (mem_separators next)]

/-- An invalid literal does not begin with a separator. -/
theorem Faulty.begins {c : Cursor} {error : SyntaxError} (fault : Faulty c error) :
    ∃ ch more, c.rest = ch :: more ∧ isSeparator ch = false := by
  have apart : ∀ ch ∈ separators, ¬ Token.floatStart ch := by decide
  cases fault with
  | unterminated same => exact ⟨'"', _, same, by decide⟩
  | number same form =>
    obtain ⟨ch, more, rfl, start⟩ := begins_of_number form
    exact ⟨ch, _, same, Bool.eq_false_iff.mpr fun separates => apart ch (mem_separators separates) start⟩

namespace Selector

open Grammar

/-- Between the two texts is an empty section: the first one is the beginning of a selector and ends with a separator
that stands in no string, and another separator follows, or nothing. -/
structure EmptyBetween (before after : List Char) (c : Char) : Prop where
  separates : isSeparator c = true
  ends : ∃ front blanks, before = front ++ c :: blanks ∧ Blank blanks ∧ front.foldl Quoting.next .outside = .outside
  viable : ∃ more selector, parse (.ofList (before ++ more)) = .ok selector
  next : after.head?.all isSeparator = true

variable {before after front blanks rest u x : List Char} {c d : Char} {ts : List Terminal} {e : Expected} {text : String}

/-- The grammar has no two separators together. -/
theorem not_next_of_separators (settled : Settled front) (blank : Blank blanks) (first : isSeparator c = true)
    (second : isSeparator d = true) (written : Written (front ++ c :: (blanks ++ d :: rest)) ts) : ¬ Phrase.selector.Next ts e := by
  intro next
  have lexemes := Rule.next_lexemes selector_follows next
  obtain ⟨before, w, _, rfl, -, -, behind⟩ := written.at_separator lexemes settled first
  obtain ⟨between, w', further, rfl, -, nothing, -⟩ :=
    behind.at_separator (fun t member => lexemes t (by simp [member])) blank.settled second
  obtain rfl := nothing.eq_nil_of_blank (fun t member => lexemes t (by simp [member])) blank
  have filled : ∃ us, Filled (before ++ ⟨.symbol w, [c]⟩ :: ⟨.symbol w', [d]⟩ :: us) := by
    rcases next with ⟨t, more, v, -, read⟩ | ⟨-, v, read⟩
    · exact ⟨further ++ t :: more, by simpa using selector_filled _ v read⟩
    · exact ⟨further, selector_filled _ v read⟩
  obtain ⟨us, filled⟩ := filled
  obtain ⟨_, ⟨⟩, other⟩ := filled.next ⟨c, rfl, first⟩
  exact other ⟨d, rfl, second⟩

namespace EmptyBetween

/-- The separator is a terminal, and so the grammar goes on behind it. -/
theorem parts (empty : EmptyBetween before after c) : ∃ front blanks ts e, before = front ++ c :: blanks ∧ Blank blanks ∧
    Settled front ∧ Written before ts ∧ Phrase.selector.Next ts e := by
  obtain ⟨front, blanks, rfl, blank, outside⟩ := empty.ends
  obtain ⟨more, selector, accepted⟩ := empty.viable
  obtain ⟨ts, written, read⟩ := (Rule.readAll_ofList_iff selector_follows selector_predicts).mp accepted
  rw [List.append_assoc, List.cons_append] at written
  have lexemes := selector_follows.lexemes read
  have settled := Quoting.settled_of_outside (written.settled lexemes) outside
  obtain ⟨terminals, w, behind, rfl, -, left, -⟩ := written.at_separator lexemes settled empty.separates
  obtain ⟨u, head, -⟩ := (selector_filled _ selector read).next ⟨c, rfl, empty.separates⟩
  obtain ⟨us, rfl⟩ := List.head?_eq_some_iff.mp head
  have nothing : Written blanks [] := ⟨blanks, .nil blanks, blank⟩
  have whole := left.link (w := w) nothing (goesOn_of_separator empty.separates)
  refine ⟨front, blanks, _, u.kind, rfl, blank, settled, whole, ?_⟩
  exact .inl ⟨u, us, selector, rfl, by simpa using read⟩

theorem not_accepted (empty : EmptyBetween before after c) {selector : Selector} : parse (.ofList (before ++ after)) ≠ .ok selector := by
  intro accepted
  obtain ⟨front, blanks, -, -, rfl, blank, settled, -⟩ := empty.parts
  obtain ⟨ts, written, read⟩ := (Rule.readAll_ofList_iff selector_follows selector_predicts).mp accepted
  rw [List.append_assoc, List.cons_append] at written
  cases after with
  | nil =>
    have lexemes := selector_follows.lexemes read
    obtain ⟨terminals, w, behind, rfl, -, -, nothing⟩ := written.at_separator lexemes settled empty.separates
    rw [List.append_nil] at nothing
    obtain rfl := nothing.eq_nil_of_blank (fun t member => lexemes t (by simp [member])) blank
    obtain ⟨_, ⟨⟩, -⟩ := (selector_filled _ selector read).next ⟨c, rfl, empty.separates⟩
  | cons d rest =>
    exact not_next_of_separators settled blank empty.separates empty.next written (.inr ⟨rfl, selector, read⟩)

/-- The grammar does not go on behind the place. -/
theorem length_le (empty : EmptyBetween before after c) (whole : before ++ after = u ++ x) (written : Written u ts)
    (next : Phrase.selector.Next ts e) : utf8Length u ≤ utf8Length before := by
  refine Nat.le_of_not_lt fun beyond => ?_
  obtain ⟨between, rfl, rfl⟩ := exists_append_of_utf8Length_le whole (Nat.le_of_lt beyond)
  obtain ⟨front, blanks, -, -, rfl, blank, settled, -⟩ := empty.parts
  cases between with
  | nil => simp at beyond
  | cons d between =>
    rw [List.append_assoc, List.cons_append] at written
    exact not_next_of_separators settled blank empty.separates empty.next written next

theorem separator_next (empty : EmptyBetween before after c) : ∀ ch ∈ after.head?, isSeparator ch = true := by
  intro ch member
  have next := empty.next
  rw [member] at next
  exact next

theorem stops (empty : EmptyBetween before after c) : Stops after :=
  fun ch member => goesOn_of_separator (empty.separator_next ch member)

theorem visible (empty : EmptyBetween before after c) : ∀ ch ∈ after.head?, isBlank ch = false :=
  fun ch member => isBlank_of_separator (empty.separator_next ch member)

theorem lastVisible (empty : EmptyBetween before after c) : Trail.lastVisible before = some c := by
  obtain ⟨front, blanks, same, blank, -⟩ := empty.ends
  exact Trail.lastVisible_eq_some_iff.mpr ⟨front, blanks, same, blank, isBlank_of_separator empty.separates⟩

theorem marks (empty : EmptyBetween before after c) :
    Cursor.Marks after (utf8Length before) (.start (before ++ after)) (.start (before ++ ['#'])) :=
  Rule.start_marks fun _ _ ch member _ => not_digit_of_stop (empty.stops ch member)

/-- With a mark behind the first text, all of it is read. -/
theorem reached (empty : EmptyBetween before after c) :
    utf8Length before ≤ (selector.toEnd (.start (before ++ ['#']))).trail.furthest := by
  obtain ⟨_, _, ts, e, -, -, -, written, next⟩ := empty.parts
  obtain ⟨d, passes, mark, offset⟩ := Rule.passes_mark written
  rw [← offset]
  exact (Rule.toEnd_reaches selector_predicts passes next mark).elim Nat.le_of_lt fun here => Nat.le_of_eq here.1.symm

/-- An invalid literal would stand in the first text, and would stop the reading in front of the mark as well. -/
theorem not_invalid (empty : EmptyBetween before after c) {error : SyntaxError} {d : Cursor} :
    (selector (.start (before ++ after))).verdict ≠ .invalid error d := by
  intro invalid
  obtain ⟨e, m, ⟨ts, passes, viable⟩, fault⟩ := selector_follows.faulty invalid
  obtain ⟨u, whole, length, written, -⟩ := passes.written (Rule.next_lexemes selector_follows (.inl viable))
  have within := empty.length_le whole written (.inl viable)
  have offset := fault.offset
  have apart : error.offset ≠ utf8Length before := by
    intro here
    obtain ⟨-, rest⟩ := append_inj_of_utf8Length whole (by omega)
    obtain ⟨ch, more, begins, other⟩ := fault.begins
    have next := empty.separator_next ch (by rw [rest, begins]; rfl)
    exact absurd (next.symm.trans other) (by decide)
  have inside : error.offset < utf8Length before := by omega
  have trail := (selector_prompt _ _ _ invalid).2
  obtain ⟨error', d', there, same⟩ :=
    selector_follows.locked_invalid empty.stops empty.visible empty.marks invalid (by omega) inside
  have reached := empty.reached
  rw [Rule.toEnd_of_invalid there] at reached
  have behind := Nat.le_trans reached (selector_prompt _ _ _ there).2
  omega

theorem refused (empty : EmptyBetween before after c) : (selector.toEnd (.start (before ++ after))).verdict = .noMatch := by
  cases verdict : (selector.toEnd (.start (before ++ after))).verdict with
  | noMatch => rfl
  | matched value d =>
    have accepted : parse (.ofList (before ++ after)) = .ok value :=
      Rule.readAll_eq_ok_iff_matched.mpr ⟨d, by rw [String.toList_ofList, verdict]⟩
    exact absurd accepted empty.not_accepted
  | invalid error d => exact absurd (Rule.toEnd_invalid verdict) empty.not_invalid

theorem furthest (empty : EmptyBetween before after c) :
    (selector.toEnd (.start (before ++ after))).trail.furthest = utf8Length before := by
  obtain ⟨u, x, ts, e, whole, length, written, next, -⟩ := Rule.toEnd_written selector_follows empty.refused
  have within := empty.length_le whole written next
  have same := Rule.toEnd_same selector_follows empty.refused empty.marks (by omega) empty.visible
  have reached := empty.reached
  rw [← same.1] at reached
  omega

/-- Reading does not stop on an overlong token. -/
theorem not_stoppedOn (empty : EmptyBetween before after c) : ∀ token ∈ (selector.toEnd (.start (before ++ after))).trail.overlong,
    Trail.stoppedOn (before ++ after) (utf8Length before) token = false := by
  have apart : ∀ c ∈ separators, c ≠ 'a' ∧ c.isDigit = false := by decide
  intro token tried
  obtain ⟨front, behind, cuts⟩ := Overlong.exists_cuts (Rule.toEnd_recalls selector_follows _ token tried).2
  refine Bool.eq_false_iff.mpr fun stopped => ?_
  rcases (cuts.stoppedOn_iff rfl).mp stopped with rfl | ⟨blanks, rfl, blank⟩
  · obtain ⟨digits, begins⟩ := begins_of_attributeIndex cuts.form
    have letter := empty.separator_next 'a' (by rw [List.append_cancel_left cuts.whole, begins]; rfl)
    exact absurd letter (by decide)
  · have some : token.text ++ blanks ≠ [] := by
      obtain ⟨digits, begins⟩ := begins_of_attributeIndex cuts.form
      simp [begins]
    obtain ⟨_, shown, kind⟩ := lastVisible_of_within cuts.form blank some (List.append_nil _).symm
    have last := empty.lastVisible
    rw [List.append_assoc, Trail.lastVisible_append, shown] at last
    obtain rfl := Option.some.inj last
    obtain ⟨letter, digit⟩ := apart _ (mem_separators empty.separates)
    rcases kind with rfl | isDigit
    · exact letter rfl
    · exact absurd (digit.symm.trans isDigit) (by decide)

end EmptyBetween

/-- An error is about an empty section exactly where there is one. -/
theorem parse_emptySection_iff {n : Nat} {found : Option String} : parse text = .error ⟨n, .emptySection c, found⟩ ↔
    ∃ before after, text.toList = before ++ after ∧ utf8Length before = n ∧ EmptyBetween before after c ∧
      found = after.head?.map String.singleton := by
  constructor
  · intro h
    rcases parse_error_iff.mp h with ⟨failed, diagnosed⟩ | ⟨d, invalid⟩
    · obtain ⟨before, after, ts, e, split, length, written, viable, -⟩ := Rule.toEnd_written selector_follows failed
      obtain ⟨rfl, last, separates, next, rfl⟩ := Trail.diagnose_emptySection split length diagnosed
      obtain ⟨front, blanks, same, blank, -⟩ := Trail.lastVisible_eq_some_iff.mp last
      have outside := Quoting.outside_of_settled (written.settled (Rule.next_lexemes selector_follows viable))
      rw [same, List.foldl_append] at outside
      have plain : ∀ ch ∈ c :: blanks, ch ≠ '"' := by
        rintro _ member rfl
        rcases List.mem_cons.mp member with rfl | behind
        · exact absurd separates (by decide)
        · exact absurd (blank _ behind) (by decide)
      exact ⟨before, after, split, length, {
        separates := separates
        ends := ⟨front, blanks, same, blank, Quoting.outside_of_plain plain outside⟩
        viable := parse_of_next written viable
        next := next }, leadingPiece_of_separator next⟩
    · obtain ⟨_, _, -, fault⟩ := selector_follows.faulty (Rule.toEnd_invalid invalid)
      cases fault
  · rintro ⟨before, after, split, rfl, empty, rfl⟩
    refine parse_error_iff.mpr (.inl ?_)
    rw [split]
    refine ⟨empty.refused, ?_⟩
    rw [Trail.diagnose_of_separators rfl empty.furthest.symm empty.lastVisible empty.separates empty.next ?_, empty.furthest,
      leadingPiece_of_separator empty.next]
    rw [empty.furthest]
    exact empty.not_stoppedOn

example : parse "0/f(1, ,2)" = .error ⟨7, .emptySection ',', some ","⟩ := by rfl

end Selector

end ChunkSelector
