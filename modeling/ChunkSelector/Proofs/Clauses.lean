import ChunkSelector.Proofs.Overlong
import ChunkSelector.Proofs.Reach
import ChunkSelector.Proofs.Relocation

/-!
# Clauses behind other clauses

Nothing that was tried in front of a semicolon counts behind it: a text that is refused is refused in the
same way behind clauses that are accepted (`Selector.parse_behind`).
-/

namespace ChunkSelector

namespace Step

variable {α : Type}

/-- The list with further items in front, and with the attempts that were made before. -/
def behind (items : List α) (before : Trail) (s : Step (List α)) : Step (List α) :=
  (s.andThen fun more c => ⟨.matched (items ++ more) c, .empty⟩).after before

variable (items : List α) (before : Trail)

@[simp] theorem behind_matched (more : List α) (c : Cursor) (trail : Trail) :
    behind items before ⟨.matched more c, trail⟩ = ⟨.matched (items ++ more) c, before ++ trail⟩ := by
  simp [behind, andThen, after]

@[simp] theorem behind_invalid (error : SyntaxError) (c : Cursor) (trail : Trail) :
    behind items before ⟨.invalid error c, trail⟩ = ⟨.invalid error c, before ++ trail⟩ := rfl

theorem behind_nil (s : Step (List α)) : s.behind [] .empty = s := by
  obtain ⟨verdict, trail⟩ := s
  cases verdict with
  | matched => simp
  | noMatch => exact congrArg (Step.mk _) (Trail.empty_append trail)
  | invalid => simp

theorem behind_behind (more : List α) (between : Trail) (s : Step (List α)) :
    (s.behind more between).behind items before = s.behind (items ++ more) (before ++ between) := by
  obtain ⟨verdict, trail⟩ := s
  cases verdict with
  | matched => simp [Trail.append_assoc]
  | noMatch => exact congrArg (Step.mk _) (Trail.append_assoc before between trail).symm
  | invalid => simp [Trail.append_assoc]

end Step

namespace Trail

/-- Nothing in the trail is further on than `n`. -/
structure Upto (t : Trail) (n : Nat) : Prop where
  furthest : t.furthest ≤ n
  overlong : ∀ token ∈ t.overlong, token.start ≤ n

variable {a b t : Trail} {n : Nat}

theorem Upto.append (left : a.Upto n) (right : b.Upto n) : (a ++ b).Upto n where
  furthest := Nat.max_le.mpr ⟨left.furthest, right.furthest⟩
  overlong token member := (List.mem_append.mp member).elim (left.overlong token) (right.overlong token)

theorem upto_empty : empty.Upto n where
  furthest := Nat.zero_le n
  overlong token member := by cases member

theorem upto_attempt {wanted : Expected} : (attempt n wanted).Upto n where
  furthest := Nat.le_refl n
  overlong token member := by cases member

/-- The attempts further on than all others are those that count. -/
theorem Upto.around (before : a.Upto n) (after : b.Upto n) (beyond : n < t.furthest) :
    (a ++ t ++ b).furthest = t.furthest ∧ (a ++ t ++ b).expected = t.expected := by
  have first := before.furthest
  have last := after.furthest
  simp only [append_def, join]
  refine ⟨by omega, ?_⟩
  rw [if_neg (by omega), if_neg (by omega), if_pos (by omega)]

end Trail

theorem Rule.toEnd_offset_le {α : Type} {rule : Rule α} {phrase : Phrase α} (follows : Rule.Follows rule phrase) {c : Cursor}
    (failed : (rule.toEnd c).verdict = .noMatch) : c.offset ≤ (rule.toEnd c).trail.furthest := by
  rcases toEnd_noMatch failed with stuck | ⟨v, d, ch, matched, visible⟩
  · rw [toEnd_of_noMatch stuck]
    exact (follows.noMatch_trail stuck).2
  · obtain ⟨ts, passes, -⟩ := follows.sound matched
    rw [toEnd_of_lead matched visible]
    refine Nat.le_trans ?_ (Trail.le_append_right (b := .attempt _ .endOfInput))
    exact Nat.le_trans passes.offset_le d.offset_le_skipBlanks

namespace Grammar

open Rule

def nextClause : Rule Hyperchunk := do
  Token.symbol ";"
  hyperchunk

variable {c d : Cursor} {v : Hyperchunk} {ts : List Terminal} {clauses : List Hyperchunk}

theorem nextClause_follows : Follows nextClause (do Phrase.symbol ";"; Phrase.hyperchunk) :=
  .bind (symbol_follows (by decide)) fun _ => hyperchunk_follows

theorem nextClause_solid : (do Phrase.symbol ";"; Phrase.hyperchunk : Phrase Hyperchunk).Solid :=
  Phrase.solid_bind_left Phrase.solid_terminal

theorem nextClause_consumes : nextClause.Consumes := nextClause_follows.consumes nextClause_solid

theorem nextClause_predicts :
    Predicts nextClause (do Phrase.symbol ";"; Phrase.hyperchunk) (· ∈ afterHyperchunk) :=
  (symbol_predicts (by decide) trivial).andThen (fun _ => hyperchunk_predicts) (by decide)

theorem many_nextClause_of_matched (h : (nextClause c).verdict = .matched v d) :
    nextClause.many c = (nextClause.many d).behind [v] (nextClause c).trail := many_of_matched nextClause_consumes h

theorem selector_eq : selector = (do
    let first ← hyperchunk
    let more ← nextClause.many
    return first :: more) := separated_eq _ _

theorem selector_of_matched (h : (hyperchunk c).verdict = .matched v d) :
    selector c = (nextClause.many d).behind [v] (hyperchunk c).trail := by
  rw [selector_eq, bind_of_matched h]
  rfl

/-- Behind a semicolon the further clauses are read as a selector of their own, if there are any. -/
theorem many_nextClause_eq (h : Token.symbol ";" d = Token.matched () c) :
    nextClause.many d = (selector c).orElse fun _ => ⟨.matched [] d, .empty⟩ := by
  have same : nextClause d = hyperchunk c := by
    rw [nextClause, bind_of_matched (by rw [h]; rfl), h]
    simp [Step.after, Token.matched]
  cases verdict : (hyperchunk c).verdict with
  | matched v e =>
    rw [many_nextClause_of_matched (same ▸ verdict), selector_of_matched verdict, same]
    have goes : (nextClause.many e).verdict ≠ .noMatch := many_ne_noMatch
    generalize nextClause.many e = step at goes ⊢
    obtain ⟨further, trail⟩ := step
    cases further with
    | matched more m => simp
    | noMatch => exact absurd rfl goes
    | invalid error m => simp
  | noMatch =>
    rw [many_of_noMatch (same ▸ verdict), selector_eq, bind_of_noMatch verdict, same]
    simp [Step.after]
  | invalid error e =>
    rw [many_of_invalid (same ▸ verdict), selector_eq, bind_of_invalid verdict, same]
    simp

theorem upto_of_matched {rule : Rule α} {phrase : Phrase α} {follow : Char → Prop} {v : α} (predicts : Predicts rule phrase follow)
    (follows : Follows rule phrase) (h : (rule c).verdict = .matched v d) (ends : ∀ ch ∈ lead d.rest, follow ch) {n : Nat}
    (le : d.skipBlanks.offset ≤ n) : (rule c).trail.Upto n := by
  have furthest := Nat.le_trans (predicts.furthest_le follows h ends) le
  exact ⟨furthest, fun token member => Nat.le_trans (follows.recalls c token member).1 furthest⟩

theorem lead_of_clauses (read : Phrase.many (do Phrase.symbol ";"; Phrase.hyperchunk) ts clauses) (passes : c.Passes ts d)
    (ends : ∀ ch ∈ lead d.rest, ch ∈ afterHyperchunk) : ∀ ch ∈ lead c.rest, ch ∈ afterHyperchunk := by
  have semicolon : (Phrase.symbol ";").Opens (· = ';') := symbol_opens (by decide) rfl
  have ahead : (Phrase.many (do Phrase.symbol ";"; Phrase.hyperchunk)).Ahead (· ∈ afterHyperchunk) ts d := .whole read ends
  intro ch member
  rcases ahead.lead (semicolon.bind_solid Phrase.solid_terminal).many passes (by decide) ch member with rfl | follows
  · decide
  · exact follows

theorem exists_upto_of_many (read : Phrase.many (do Phrase.symbol ";"; Phrase.hyperchunk) ts clauses) (passes : c.Passes ts d)
    (ends : ∀ ch ∈ lead d.rest, ch ∈ afterHyperchunk) : ∃ before,
      nextClause.many c = (nextClause.many d).behind clauses before ∧ before.Upto d.skipBlanks.offset := by
  induction read generalizing c with
  | nil =>
    obtain rfl := Cursor.passes_nil_iff.mp passes
    exact ⟨.empty, (Step.behind_nil _).symm, Trail.upto_empty⟩
  | cons head tail ih =>
    obtain ⟨m, left, right⟩ := passes.split
    have next := lead_of_clauses tail right ends
    have matched := nextClause_predicts.reads left head next
    obtain ⟨before, rest, upto⟩ := ih right
    refine ⟨_, ?_, (upto_of_matched nextClause_predicts nextClause_follows matched next right.skipBlanks_le).append upto⟩
    rw [many_nextClause_of_matched matched, rest, Step.behind_behind]
    rfl

/-- Up to a semicolon a selector is read clause by clause, whatever is behind the semicolon. -/
theorem exists_upto {selected : Selector} (read : Phrase.selector ts selected) (passes : c.Passes ts d)
    (ends : ∀ ch ∈ lead d.rest, ch ∈ afterHyperchunk) : ∃ before,
      selector c = (nextClause.many d).behind selected before ∧ before.Upto d.skipBlanks.offset := by
  obtain ⟨first, _, v, rfl, head, more, _, vs, rfl, tail, rfl, rfl⟩ := read
  rw [List.append_nil] at passes
  obtain ⟨m, left, right⟩ := passes.split
  have next := lead_of_clauses tail right ends
  have matched := hyperchunk_predicts.reads left head next
  obtain ⟨before, rest, upto⟩ := exists_upto_of_many tail right ends
  refine ⟨_, ?_, (upto_of_matched hyperchunk_predicts hyperchunk_follows matched next right.skipBlanks_le).append upto⟩
  rw [selector_of_matched matched, rest, Step.behind_behind]
  rfl

/-! ### A text behind a semicolon -/

/-- Reading goes from the first cursor to the second by clauses, and from there past a semicolon to the third. -/
structure Crosses (c : Cursor) (selected : Selector) (d e : Cursor) : Prop where
  clauses : ∃ before, selector c = (nextClause.many d).behind selected before ∧ before.Upto d.skipBlanks.offset
  semicolon : Token.symbol ";" d = Token.matched () e
  offset : e.offset = d.skipBlanks.offset + 1

variable {e : Cursor} {selected : Selector}

theorem Crosses.selector_eq (h : Crosses c selected d e) : ∃ before, before.Upto d.skipBlanks.offset ∧
    selector c = ((selector e).orElse fun _ => ⟨.matched [] d, .empty⟩).behind selected before := by
  obtain ⟨before, same, upto⟩ := h.clauses
  exact ⟨before, upto, by rw [same, many_nextClause_eq h.semicolon]⟩

theorem Crosses.lead (h : Crosses c selected d e) : ChunkSelector.lead d.rest = some ';' := by
  have known : ";" ∈ Terminal.symbols := by decide
  have matched : (Token.symbol ";" d).verdict = .matched () e := by
    rw [h.semicolon]
    rfl
  obtain ⟨-, -, _, rest, rfl, -⟩ := (Token.symbol_takes known).matched matched
  rw [ChunkSelector.lead, ← Cursor.rest_skipBlanks, rest]
  rfl

theorem Crosses.toEnd_invalid (h : Crosses c selected d e) {error : SyntaxError} {stop : Cursor}
    (invalid : (selector.toEnd e).verdict = .invalid error stop) :
    (selector.toEnd c).verdict = .invalid error stop := by
  obtain ⟨before, -, same⟩ := h.selector_eq
  have here := Rule.toEnd_invalid invalid
  generalize selector e = step at same here
  obtain ⟨verdict, trail⟩ := step
  cases here
  rw [Step.orElse_invalid, Step.behind_invalid] at same
  rw [toEnd_of_invalid (by rw [same])]

/-- What comes to nothing behind the semicolon is remembered, and nothing else as far on. -/
theorem Crosses.toEnd_noMatch (h : Crosses c selected d e) (failed : (selector.toEnd e).verdict = .noMatch) :
    (selector.toEnd c).verdict = .noMatch ∧ ∃ before after : Trail,
      (selector.toEnd c).trail = before ++ (selector.toEnd e).trail ++ after ∧
      before.Upto d.skipBlanks.offset ∧ after.Upto d.skipBlanks.offset ∧ after.overlong = [] := by
  obtain ⟨before, upto, same⟩ := h.selector_eq
  rcases Rule.toEnd_noMatch failed with stuck | ⟨more, m, ch, matched, visible⟩
  · rw [toEnd_of_noMatch stuck]
    generalize selector e = step at same stuck
    obtain ⟨verdict, trail⟩ := step
    cases stuck
    simp only [Step.orElse_noMatch, Step.after, Step.behind_matched, Trail.append_empty] at same
    rw [toEnd_of_lead (by rw [same]) h.lead, same]
    exact ⟨rfl, before, _, rfl, upto, Trail.upto_attempt, rfl⟩
  · rw [toEnd_of_lead matched visible]
    generalize selector e = step at same matched
    obtain ⟨verdict, trail⟩ := step
    cases matched
    rw [Step.orElse_matched, Step.behind_matched] at same
    rw [toEnd_of_lead (by rw [same]) visible, same]
    exact ⟨rfl, before, .empty, by simp [Trail.append_assoc], upto, Trail.upto_empty, rfl⟩

theorem exists_crosses {front : List Char} (written : Written front ts) (read : Phrase.selector ts selected) (text : List Char) :
    ∃ d, Crosses (.start (front ++ ';' :: text)) selected d ⟨utf8Length front + 1, text⟩ ∧
      d.skipBlanks.offset = utf8Length front := by
  have stop : Stops (';' :: text) := by
    intro ch member
    obtain rfl : ';' = ch := by simpa using member
    decide
  obtain ⟨d, passes, rest, offset⟩ := passes_before written stop (by simp; decide)
  have ends : ∀ ch ∈ ChunkSelector.lead d.rest, ch ∈ afterHyperchunk := by
    rw [ChunkSelector.lead, ← Cursor.rest_skipBlanks, rest]
    rintro _ ⟨⟩
    decide
  refine ⟨d, ⟨exists_upto read passes ends, ?_, by rw [offset]⟩, offset⟩
  have cut : Lexeme.literally ";".toList d.skipBlanks.rest = some ([';'], text) := by
    rw [rest]
    rfl
  rw [Token.symbol, Token.lexeme_of_cut cut, ← offset]
  rfl

/-! ### Nothing but a separator -/

theorem dimension_fails : dimension.Fails dimensionStart := by
  refine (slice_fails.map.weaken ?_).orElse ((ellipsis_fails.weaken ?_).orElse (integer_fails.map.weaken fun _ => .inl))
  · exact fun ch start => start.imp id .inl
  · exact fun ch start => .inr (.inr start)

theorem selector_opens : Phrase.selector.Opens dimensionStart := by
  have arrays : (Phrase.alternatives Phrase.dimension).Opens dimensionStart := dimension_opens.list dimension_solid
  exact (arrays.bind_solid (Phrase.solid_list dimension_solid)).list hyperchunk_solid

theorem not_dimensionStart_of_separator {text : List Char} (separator : (lead text).all isSeparator = true) :
    ∀ ch ∈ lead text, ¬ dimensionStart ch := by
  intro ch member
  rw [Option.mem_def.mp member] at separator
  have cases : ch = '/' ∨ ch = '|' ∨ ch = ';' ∨ ch = ',' := by simpa [isSeparator, or_assoc] using separator
  rcases cases with rfl | rfl | rfl | rfl <;> decide

theorem selector_fails : selector.Fails dimensionStart := by
  have arrays : (alternatives dimension).Fails dimensionStart := dimension_fails.separated
  exact Fails.separated arrays.bind

/-- Where no dimension stands, nothing is read and nothing further on is tried. -/
theorem selector_of_separator (separator : (lead c.rest).all isSeparator = true) :
    (selector c).verdict = .noMatch ∧ (selector c).trail.furthest = c.skipBlanks.offset ∧ (selector c).trail.overlong = [] := by
  have away := not_dimensionStart_of_separator separator
  have failed := selector_fails c away
  have here : ∀ {e m}, Phrase.selector.Visits c e m → m = c := by
    rintro e m ⟨ts, passes, t, more, v, -, read⟩
    rcases selector_opens.lead passes read with ⟨-, same⟩ | ⟨ch, shown, start⟩
    · exact same
    · exact absurd start (away ch shown)
  refine ⟨failed, ?_, List.eq_nil_iff_forall_not_mem.mpr fun token member => ?_⟩
  · obtain ⟨e, more, first⟩ := List.exists_cons_of_ne_nil (selector_follows.noMatch_trail failed).1
    have made := (selector_follows.made c).of_mem (by rw [first]; exact List.mem_cons_self)
    obtain ⟨ts, m, passes, offset, viable⟩ := made
    rw [← offset, here ⟨ts, passes, viable⟩]
  · obtain ⟨m, visits, stands⟩ := (selector_follows.recalls c token member).2
    obtain rfl := here visits
    rw [stands.lead] at separator
    exact absurd separator (by decide)

/-! ### The error -/

theorem shifted_start (text : List Char) (k : Nat) : (Cursor.start text).Shifted k ⟨k, text⟩ :=
  Cursor.shifted_of_eq rfl (by simp [Cursor.start])

theorem not_separator_of_invalid {error : SyntaxError} (invalid : (selector.toEnd c).verdict = .invalid error d) :
    ¬ (lead c.rest).all isSeparator = true := by
  intro separator
  cases (selector_of_separator separator).1.symm.trans (Rule.toEnd_invalid invalid)

theorem Crosses.behind_invalid {front text : List Char} {error : SyntaxError} {stop : Cursor}
    (h : Crosses (.start (front ++ ';' :: text)) selected d ⟨utf8Length front + 1, text⟩)
    (invalid : (selector.toEnd (.start text)).verdict = .invalid error stop) :
    ∃ stop', (selector.toEnd (.start (front ++ ';' :: text))).verdict = .invalid (error.shift (utf8Length front + 1)) stop' := by
  cases toEnd_shifted selector_follows (shifted_start text (utf8Length front + 1)) with
  | matched here _ _ _ => cases invalid.symm.trans here
  | noMatch here _ _ => cases invalid.symm.trans here
  | invalid here there _ =>
    cases invalid.symm.trans here
    exact ⟨_, h.toEnd_invalid there⟩

theorem Crosses.behind {front text : List Char} (h : Crosses (.start (front ++ ';' :: text)) selected d ⟨utf8Length front + 1, text⟩)
    (offset : d.skipBlanks.offset = utf8Length front) (failed : (selector.toEnd (.start text)).verdict = .noMatch) :
    (selector.toEnd (.start (front ++ ';' :: text))).verdict = .noMatch ∧
      Trail.Behind (front ++ [';']) text (selector.toEnd (.start text)).trail (selector.toEnd (.start (front ++ ';' :: text))).trail := by
  have length : utf8Length (front ++ [';']) = utf8Length front + 1 := utf8Length_append _ _
  have shifted := toEnd_shifted selector_follows (shifted_start text (utf8Length front + 1))
  have trails := shifted.trails
  cases shifted with
  | matched here _ _ _ => cases failed.symm.trans here
  | invalid here _ _ => cases failed.symm.trans here
  | noMatch _ there _ =>
    obtain ⟨refused, before, after, trail, left, right, quiet⟩ := h.toEnd_noMatch there
    have beyond : utf8Length front < (selector.toEnd ⟨utf8Length front + 1, text⟩).trail.furthest :=
      toEnd_offset_le selector_follows there
    rw [offset] at left right
    obtain ⟨furthest, expected⟩ := left.around right beyond
    rw [← trail] at furthest expected
    refine ⟨refused, ⟨?_, expected.trans trails.expected, before.overlong, ?_, fun token member => ?_⟩⟩
    · rw [furthest, trails.some (toEnd_expected selector_follows failed), length]
    · rw [trail, length, ← trails.overlong]
      simp [Trail.append_def, Trail.join, quiet]
    · have tried : token ∈ (selector.toEnd (.start (front ++ ';' :: text))).trail.overlong := by
        rw [trail]
        simp [Trail.append_def, Trail.join, member]
      obtain ⟨_, _, cuts⟩ := Overlong.exists_cuts (toEnd_recalls selector_follows _ token tried).2
      obtain ⟨u, x, split, reached, -⟩ := toEnd_border selector_follows refused
      rw [List.append_assoc, ← reached]
      exact cuts.not_stoppedOn_across (by decide) (by decide) (left.overlong token member) split (by omega)

end Grammar

namespace Selector

open Grammar

variable {front text u x : List Char} {trail trail' : Trail}

/-- A text with something else than a separator in front fails behind clauses as it does alone. -/
theorem diagnose_behind (behind : Trail.Behind (front ++ [';']) text trail trail')
    (split : text = u ++ x) (length : utf8Length u = trail.furthest) (visible : ∀ ch ∈ x.head?, isBlank ch = false)
    (other : (lead text).all isSeparator = false) :
    trail'.diagnose (front ++ [';'] ++ text) = (trail.diagnose text).shift (utf8Length (front ++ [';'])) := by
  apply behind.diagnose
  have cut : splitAtOffset text trail.furthest = (u, x) := by rw [← length, split, splitAtOffset_append]
  rw [cut]
  cases shown : Trail.lastVisible u with
  | none =>
    have blank := Trail.lastVisible_eq_none_iff.mp shown
    rw [split, lead_append_of_blank blank] at other
    have next : x.head?.all isSeparator = false := by
      cases x with
      | nil => exact other
      | cons ch x => rwa [lead_cons_of_visible (visible ch rfl)] at other
    rw [Trail.kindBetween_of_visible next, Trail.kindBetween_of_visible next]
  | some c =>
    unfold Trail.kindBetween
    rw [Trail.lastVisible_append, shown]
    rfl

/-- Behind clauses that are accepted, a text is refused as it is alone. Only if it begins with a separator
the error is about the semicolon in front of it. -/
theorem parse_behind {front text : String} {selector : Selector} {error : SyntaxError} (accepted : parse front = .ok selector)
    (refused : parse text = .error error) : parse (front ++ ";" ++ text) = .error
      (if (lead text.toList).all isSeparator then
        ⟨utf8Length front.toList + 1 + utf8Length (text.toList.takeWhile isBlank), .emptySection ';', error.found⟩
      else error.shift (utf8Length front.toList + 1)) := by
  obtain ⟨ts, reads⟩ := parse_eq_ok_iff.mp accepted
  obtain ⟨written, read⟩ := reads_iff.mp reads
  obtain ⟨d, crosses, offset⟩ := exists_crosses written read text.toList
  have whole : (front ++ ";" ++ text).toList = front.toList ++ ';' :: text.toList := by simp
  have cut : front.toList ++ ';' :: text.toList = front.toList ++ [';'] ++ text.toList := by simp
  have length : utf8Length (front.toList ++ [';']) = utf8Length front.toList + 1 := utf8Length_append _ _
  rw [parse_error_iff, whole]
  rcases parse_error_iff.mp refused with ⟨failed, diagnosed⟩ | ⟨stop, invalid⟩
  · obtain ⟨failed', behind⟩ := crosses.behind offset failed
    refine .inl ⟨failed', ?_⟩
    rw [cut] at behind ⊢
    by_cases separator : (lead text.toList).all isSeparator = true
    · obtain ⟨stuck, reached, nothing⟩ := selector_of_separator (c := .start text.toList) separator
      rw [Rule.toEnd_of_noMatch stuck] at behind diagnosed
      have blanks : utf8Length (text.toList.takeWhile isBlank) = (Cursor.start text.toList).skipBlanks.offset :=
        (Nat.zero_add _).symm
      rw [if_pos separator, behind.diagnose_of_blank nothing List.takeWhile_append_dropWhile.symm (blanks.trans reached.symm)
        mem_takeWhile_holds (by decide) (by decide) separator, diagnosed, reached, ← blanks, length, Nat.add_comm]
    · obtain ⟨u, x, split, border, -, visible⟩ := Rule.toEnd_border selector_follows failed
      rw [if_neg separator, diagnose_behind behind split border visible (Bool.eq_false_iff.mpr separator), diagnosed, length]
  · have other : ¬ (lead text.toList).all isSeparator = true := not_separator_of_invalid invalid
    rw [if_neg other]
    exact .inr (crosses.behind_invalid invalid)

theorem parse_behind_of_overlong_name :
    parse ("0/a99999999999999999999(1)" ++ ";" ++ "1/a0>") =
      .error ⟨32, .expected [.token .float, .token .integer, .token .string], none⟩ := by
  have accepted : parse "0/a99999999999999999999(1)" =
      .ok [⟨[.index 0], some [.call ⟨"a99999999999999999999", [.number (.int 1)]⟩], none, none⟩] := by rfl
  have refused : parse "1/a0>" = .error ⟨5, .expected [.token .float, .token .integer, .token .string], none⟩ := by rfl
  exact parse_behind accepted refused

end Selector

end ChunkSelector
