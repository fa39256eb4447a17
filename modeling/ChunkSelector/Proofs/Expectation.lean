import ChunkSelector.Proofs.Acceptance
import ChunkSelector.Proofs.Attempts
import ChunkSelector.Proofs.Border

/-!
# What is expected

The classes in a syntax error are those that may come next, and no others
(`Rule.mem_expected_iff`). An attempt that a rule makes at its furthest offset is one that the phrase
has there, so nothing needless is listed. Nothing is missing either: the same rule runs into a
mark put at that offset in the same way, and there it attempts all that the phrase may go on with.
-/

namespace ChunkSelector

/-- The class may come behind these terminals, if only as the end of the input. -/
def Phrase.Next (p : Phrase α) (ts : List Terminal) (e : Expected) : Prop :=
  p.Viable ts e ∨ e = .endOfInput ∧ ∃ v, p ts v

theorem Cursor.Passes.written {text : List Char} {ts : List Terminal} {d : Cursor} (passes : (start text).Passes ts d)
    (lexemes : ∀ t ∈ ts, t.IsLexeme) :
    ∃ u, text = u ++ d.skipBlanks.rest ∧ utf8Length u = d.skipBlanks.offset ∧ Written u ts ∧
      NoSplit u d.skipBlanks.rest := by
  obtain ⟨length, spelled⟩ := passes
  have blank : Blank (d.rest.takeWhile isBlank) := mem_takeWhile_holds
  have cut : d.rest.takeWhile isBlank ++ d.skipBlanks.rest = d.rest := List.takeWhile_append_dropWhile
  obtain ⟨p, same, -, border⟩ := spelled.front lexemes
  change text = p ++ d.rest at same
  rw [← cut] at same spelled border
  obtain ⟨u, whole, written⟩ := spelled.exchange (y := []) (by simp [Stops])
  change text = u ++ d.skipBlanks.rest at whole
  rw [List.append_nil, List.append_nil] at written
  have parts : u = p ++ d.rest.takeWhile isBlank := by
    rw [same, ← List.append_assoc] at whole
    exact (List.append_cancel_right whole).symm
  refine ⟨u, whole, ?_, ⟨_, written, blank⟩, ?_⟩
  · have total := d.textLength_skipBlanks.trans length
    rw [textLength_start, whole, utf8Length_append, textLength] at total
    omega
  · rw [parts]
    exact border.append blank.noSplit

theorem append_inj_of_utf8Length {a b x y : List Char} (same : a ++ x = b ++ y) (length : utf8Length a = utf8Length b) :
    a = b ∧ x = y := by
  have cut := splitAtOffset_append a x
  rw [same, length, splitAtOffset_append] at cut
  obtain ⟨rfl, rfl⟩ := Prod.mk.inj cut
  exact ⟨rfl, rfl⟩

theorem Trail.diagnose_expected {text : List Char} {trail : Trail} {n : Nat} {options : List Expected} {found : Option String}
    (h : trail.diagnose text = ⟨n, .expected options, found⟩) : trail.furthest = n ∧ trail.expected = options := by
  unfold diagnose at h
  split at h
  · cases h
  · dsimp only at h
    obtain ⟨furthest, kind, -⟩ := SyntaxError.mk.inj h
    refine ⟨furthest, ?_⟩
    unfold kindBetween at kind
    split at kind
    · split at kind
      · cases kind
      · cases kind
        rfl
    · cases kind
      rfl

namespace Rule

variable {α : Type} {rule : Rule α} {phrase : Phrase α} {follow : Char → Prop} {c c' d : Cursor} {v : α} {n : Nat}
  {x : List Char} {e : Expected}

/-! ### A rule in front of the end -/

theorem toEnd_of_noMatch (h : (rule c).verdict = .noMatch) : rule.toEnd c = ⟨.noMatch, (rule c).trail⟩ :=
  bind_of_noMatch h

theorem toEnd_of_invalid {error : SyntaxError} (h : (rule c).verdict = .invalid error d) :
    rule.toEnd c = ⟨.invalid error d, (rule c).trail⟩ := bind_of_invalid h

theorem toEnd_of_lead {ch : Char} (h : (rule c).verdict = .matched v d) (visible : lead d.rest = some ch) :
    rule.toEnd c = ⟨.noMatch, (rule c).trail ++ .attempt d.skipBlanks.offset .endOfInput⟩ := by
  rw [toEnd, bind_of_matched h, bind_of_noMatch (by rw [Token.endOfInput_of_lead visible])]
  rw [Token.endOfInput_of_lead visible]
  rfl

theorem toEnd_noMatch (h : (rule.toEnd c).verdict = .noMatch) :
    (rule c).verdict = .noMatch ∨ ∃ v d ch, (rule c).verdict = .matched v d ∧ lead d.rest = some ch := by
  cases verdict : (rule c).verdict with
  | matched v d =>
    cases visible : lead d.rest with
    | some ch => exact .inr ⟨v, d, ch, rfl, visible⟩
    | none =>
      obtain ⟨e, matched⟩ := toEnd_of_blank verdict (lead_eq_none_iff.mp visible)
      cases h.symm.trans matched
  | noMatch => exact .inl rfl
  | invalid error d =>
    rw [toEnd_of_invalid verdict] at h
    cases h

theorem toEnd_invalid {error : SyntaxError} (h : (rule.toEnd c).verdict = .invalid error d) :
    (rule c).verdict = .invalid error d := by
  rcases bind_invalid h with here | ⟨v, m, matched, -⟩
  · exact here
  · cases visible : lead m.rest with
    | some ch =>
      rw [toEnd_of_lead matched visible] at h
      cases h
    | none =>
      obtain ⟨e, accepted⟩ := toEnd_of_blank matched (lead_eq_none_iff.mp visible)
      cases h.symm.trans accepted

theorem toEnd_made (follows : Follows rule phrase) (h : (rule.toEnd c).verdict = .noMatch) :
    (rule.toEnd c).trail.Made fun n e => ∃ ts d, c.Passes ts d ∧ d.skipBlanks.offset = n ∧ phrase.Next ts e := by
  have here : (rule c).trail.Made fun n e => ∃ ts d, c.Passes ts d ∧ d.skipBlanks.offset = n ∧ phrase.Next ts e := by
    refine (follows.made c).imp fun n e tries => ?_
    obtain ⟨ts, d, passes, offset, viable⟩ := tries
    exact ⟨ts, d, passes, offset, .inl viable⟩
  rcases toEnd_noMatch h with failed | ⟨v, d, ch, matched, visible⟩
  · rw [toEnd_of_noMatch failed]
    exact here
  · rw [toEnd_of_lead matched visible]
    obtain ⟨ts, passes, read⟩ := follows.sound matched
    exact .append here (.attempt rfl ⟨ts, d, passes, rfl, .inr ⟨rfl, v, read⟩⟩)

theorem toEnd_expected (follows : Follows rule phrase) (h : (rule.toEnd c).verdict = .noMatch) :
    (rule.toEnd c).trail.expected ≠ [] := by
  rcases toEnd_noMatch h with failed | ⟨v, d, ch, matched, visible⟩
  · rw [toEnd_of_noMatch failed]
    exact (follows.noMatch_trail failed).1
  · rw [toEnd_of_lead matched visible]
    intro none
    have one : (Trail.attempt d.skipBlanks.offset .endOfInput).Made fun _ _ => True := .attempt rfl trivial
    exact absurd (Trail.expected_eq_nil_of_append (follows.made c) one none).2 (by simp [Trail.attempt])

/-- A refused text is refused in the same way with a mark at the furthest offset, or behind it. -/
theorem toEnd_same (follows : Follows rule phrase) (h : (rule.toEnd c).verdict = .noMatch) (marks : Cursor.Marks x n c c')
    (within : (rule.toEnd c).trail.furthest ≤ n) (border : ∀ ch ∈ x.head?, isBlank ch = false) :
    (rule.toEnd c).trail.Same (rule.toEnd c').trail := by
  rcases toEnd_noMatch h with failed | ⟨v, d, ch, matched, visible⟩
  · rw [toEnd_of_noMatch failed] at within ⊢
    obtain ⟨there, trails⟩ := (follows.locked border marks (.of_noMatch failed within)).of_noMatch failed
    rw [toEnd_of_noMatch there]
    exact trails
  · rw [toEnd_of_lead matched visible] at within ⊢
    obtain ⟨trail, last⟩ := Nat.max_le.mp within
    have here := Step.Within.of_matched matched trail (Nat.le_trans d.offset_le_skipBlanks last)
    obtain ⟨d', there, marks', trails⟩ := (follows.locked border marks here).of_matched matched
    obtain ⟨p, -, -, skipped, -⟩ := marks'.skipBlanks border
    obtain ⟨ch', shown⟩ : ∃ ch', lead d'.rest = some ch' := by
      rw [lead, ← Cursor.rest_skipBlanks, skipped]
      cases p with
      | nil => exact ⟨'#', rfl⟩
      | cons ch' p => exact ⟨ch', rfl⟩
    rw [toEnd_of_lead there shown, skipped]
    exact trails.append ⟨rfl, rfl⟩

theorem toEnd_reaches (predicts : Predicts rule phrase follow) {ts : List Terminal} (passes : c.Passes ts d)
    (next : phrase.Next ts e) (mark : lead d.rest = some '#') :
    (rule.toEnd c).trail.Reaches d.skipBlanks.offset e := by
  rcases next with viable | ⟨rfl, v, read⟩
  · exact bind_reaches (predicts.attempts passes viable mark)
  · have matched := predicts.reads passes read fun ch member => by
      rw [mark] at member
      obtain rfl := Option.some.inj member
      exact predicts.mark
    rw [toEnd_of_lead matched mark]
    exact Trail.Reaches.append_left (.inr ⟨rfl, by simp [Trail.attempt]⟩) _

/-! ### All that may come next -/

theorem next_lexemes (follows : Follows rule phrase) {ts : List Terminal} (next : phrase.Next ts e) :
    ∀ t ∈ ts, t.IsLexeme := by
  rcases next with ⟨t, more, v, -, read⟩ | ⟨-, v, read⟩
  · exact fun u member => follows.lexemes read u (by simp [member])
  · exact follows.lexemes read

/-- A text is refused behind terminals that the phrase may go on behind. -/
theorem toEnd_written (follows : Follows rule phrase) {text : List Char} (h : (rule.toEnd (.start text)).verdict = .noMatch) :
    ∃ u x ts e, text = u ++ x ∧ utf8Length u = (rule.toEnd (.start text)).trail.furthest ∧ Written u ts ∧ phrase.Next ts e ∧
      NoSplit u x ∧ ∀ ch ∈ x.head?, isBlank ch = false := by
  obtain ⟨e, more, first⟩ := List.exists_cons_of_ne_nil (toEnd_expected follows h)
  obtain ⟨ts, d, passes, offset, next⟩ := (toEnd_made follows h).of_mem (by rw [first]; exact List.mem_cons_self)
  obtain ⟨u, whole, length, written, border⟩ := passes.written (next_lexemes follows next)
  exact ⟨u, _, ts, e, whole, length.trans offset, written, next, border, head_dropWhile_stops isBlank d.rest⟩

/-- Where a text is refused stands no blank, and no digits are cut apart there. -/
theorem toEnd_border (follows : Follows rule phrase) {text : List Char}
    (h : (rule.toEnd (.start text)).verdict = .noMatch) :
    ∃ u x, text = u ++ x ∧ utf8Length u = (rule.toEnd (.start text)).trail.furthest ∧ NoSplit u x ∧
      ∀ ch ∈ x.head?, isBlank ch = false := by
  obtain ⟨u, x, ts, e, whole, length, -, -, border, visible⟩ := toEnd_written follows h
  exact ⟨u, x, whole, length, border, visible⟩

theorem start_marks {u : List Char} (border : NoSplit u x) :
    Cursor.Marks x (utf8Length u) (.start (u ++ x)) (.start (u ++ ['#'])) :=
  ⟨u, rfl, Nat.zero_add _, rfl, border⟩

/-- Behind the terminals of a text another text may stand. -/
theorem passes_before {u y : List Char} {ts : List Terminal} (written : Written u ts) (stop : Stops y)
    (visible : ∀ ch ∈ y.head?, isBlank ch = false) :
    ∃ d, (Cursor.start (u ++ y)).Passes ts d ∧ d.skipBlanks.rest = y ∧ d.skipBlanks.offset = utf8Length u := by
  obtain ⟨mid, spelled, blank⟩ := written
  rw [← List.append_nil mid] at spelled
  obtain ⟨_, rfl, further⟩ := spelled.exchange stop
  rw [List.append_nil]
  obtain ⟨d, passes, rest⟩ := Cursor.exists_passes (.start _) further
  have shown : d.skipBlanks.rest = y := by
    rw [Cursor.rest_skipBlanks, rest]
    exact dropWhile_eq_of_stop blank visible
  refine ⟨d, passes, shown, ?_⟩
  have total := d.textLength_skipBlanks.trans passes.1
  rw [Cursor.textLength_start, utf8Length_append, Cursor.textLength, shown] at total
  omega

theorem passes_mark {u : List Char} {ts : List Terminal} (written : Written u ts) :
    ∃ d, (Cursor.start (u ++ ['#'])).Passes ts d ∧ lead d.rest = some '#' ∧ d.skipBlanks.offset = utf8Length u := by
  obtain ⟨d, passes, shown, offset⟩ := passes_before written stops_mark (by simp; decide)
  refine ⟨d, passes, ?_, offset⟩
  rw [lead, ← Cursor.rest_skipBlanks, shown]
  rfl

/-- What a refused text expects is what may come behind the terminals in front of that offset. -/
theorem mem_expected_iff (follows : Follows rule phrase) (predicts : Predicts rule phrase follow) {text u : List Char}
    (h : (rule.toEnd (.start text)).verdict = .noMatch) (split : text = u ++ x)
    (length : utf8Length u = (rule.toEnd (.start text)).trail.furthest) :
    e ∈ (rule.toEnd (.start text)).trail.expected ↔ ∃ ts, Written u ts ∧ phrase.Next ts e := by
  constructor
  · intro member
    obtain ⟨ts, d, passes, offset, next⟩ := (toEnd_made follows h).of_mem member
    obtain ⟨u', whole, length', written, -⟩ := passes.written (next_lexemes follows next)
    obtain ⟨rfl, -⟩ := append_inj_of_utf8Length (split.symm.trans whole) (length.trans (offset.symm.trans length'.symm))
    exact ⟨ts, written, next⟩
  · rintro ⟨ts, written, next⟩
    obtain ⟨u', x', whole, length', border, visible⟩ := toEnd_border follows h
    obtain ⟨rfl, rfl⟩ := append_inj_of_utf8Length (split.symm.trans whole) (length.trans length'.symm)
    obtain ⟨d, passes, mark, offset⟩ := passes_mark written
    have reached := toEnd_reaches predicts passes next mark
    have marks := start_marks border
    rw [length, ← split] at marks
    obtain ⟨furthest, expected⟩ := toEnd_same follows h marks (Nat.le_refl _) visible
    rw [offset, length, furthest] at reached
    rw [expected]
    rcases reached with further | ⟨-, member⟩
    · exact absurd further (Nat.lt_irrefl _)
    · exact member

theorem readAll_expected (follows : Follows rule phrase) {text : String} {options : List Expected} {found : Option String}
    (h : rule.readAll text = .error ⟨n, .expected options, found⟩) :
    (rule.toEnd (.start text.toList)).verdict = .noMatch ∧
      (rule.toEnd (.start text.toList)).trail.furthest = n ∧
      (rule.toEnd (.start text.toList)).trail.expected = options := by
  rw [readAll_eq, Step.result] at h
  split at h
  · cases h
  · rename_i verdict
    exact ⟨verdict, Trail.diagnose_expected (Except.error.inj h)⟩
  · rename_i error d verdict
    obtain rfl := Except.error.inj h
    obtain ⟨_, _, _, fault⟩ := follows.faulty (toEnd_invalid verdict)
    cases fault

end Rule

/-- The class of the first terminal, or the end of the input. -/
def Expected.ofFirst : List Terminal → Expected
  | [] => .endOfInput
  | t :: _ => t.kind

theorem Phrase.Next.of_append {p : Phrase α} {front back : List Terminal} {v : α} (read : p (front ++ back) v) :
    p.Next front (.ofFirst back) := by
  cases back with
  | nil => exact .inr ⟨rfl, v, by simpa using read⟩
  | cons t more => exact .inl ⟨t, more, v, rfl, read⟩

namespace Selector

/-- The classes are those of the tokens that a selector may go on with behind a text and a blank. -/
structure Expects (before : List Char) (options : List Expected) : Prop where
  some : options ≠ []
  distinct : options.Nodup
  ends : .endOfInput ∈ options → ∃ selector, parse (.ofList before) = .ok selector
  /-- A token of each class goes on with the text, in some selector. -/
  goesOn {e : Expected} : e ∈ options → e ≠ .endOfInput → ∃ front t more rest selector, t.kind = e ∧ t.IsLexeme ∧
    Written before front ∧ Written (t.text ++ rest) (t :: more) ∧ Phrase.selector (front ++ t :: more) selector ∧
    parse (.ofList (before ++ ' ' :: (t.text ++ rest))) = .ok selector
  /-- Every selector that begins like this goes on with a token of these classes, or ends. -/
  complete {rest : List Char} {selector : Selector} : parse (.ofList (before ++ ' ' :: rest)) = .ok selector →
    (∃ ts, Reads (before ++ ' ' :: rest) ts selector) ∧ ∀ ts, Reads (before ++ ' ' :: rest) ts selector →
      ∃ front back, ts = front ++ back ∧ Written before front ∧ Written rest back ∧ .ofFirst back ∈ options
  stops {rest : List Char} {selector : Selector} : parse (.ofList (before ++ ' ' :: rest)) = .ok selector →
    Blank rest → .endOfInput ∈ options

theorem reads_iff {text : List Char} {ts : List Terminal} {selector : Selector} :
    Reads text ts selector ↔ Written text ts ∧ Phrase.selector ts selector := by
  constructor
  · rintro ⟨tail, spelled, blank, read⟩
    exact ⟨⟨tail, spelled, blank⟩, read⟩
  · rintro ⟨⟨tail, spelled, blank⟩, read⟩
    exact ⟨tail, spelled, blank, read⟩

theorem parse_of_written {text : List Char} {ts : List Terminal} {selector : Selector} (written : Written text ts)
    (read : Phrase.selector ts selector) : parse (.ofList text) = .ok selector := by
  refine parse_eq_ok_iff.mpr ⟨ts, ?_⟩
  rw [String.toList_ofList]
  exact reads_iff.mpr ⟨written, read⟩

theorem reads_lexemes {text : List Char} {ts : List Terminal} {selector : Selector} (reads : Reads text ts selector) :
    ∀ t ∈ ts, t.IsLexeme := Grammar.selector_follows.lexemes (reads_iff.mp reads).2

theorem Reads.cut {before rest : List Char} {ts : List Terminal} {selector : Selector}
    (reads : Reads (before ++ ' ' :: rest) ts selector) (settled : Settled before) :
    ∃ front back, ts = front ++ back ∧ Written before front ∧ Written rest back ∧
      Phrase.selector.Next front (.ofFirst back) := by
  obtain ⟨written, read⟩ := reads_iff.mp reads
  have lexemes := reads_lexemes reads
  obtain ⟨front, back, rfl, left, right⟩ := written.cut lexemes settled (stops_blank rest)
  exact ⟨front, back, rfl, left, right.of_blank fun t member => lexemes t (by simp [member]), .of_append read⟩

theorem expects_of_next {before : List Char} {options : List Expected} (some : options ≠ []) (distinct : options.Nodup)
    (exact : ∀ e, e ∈ options ↔ ∃ ts, Written before ts ∧ Phrase.selector.Next ts e) : Expects before options := by
  have settled : Settled before := by
    obtain ⟨e, more, first⟩ := List.exists_cons_of_ne_nil some
    obtain ⟨ts, written, next⟩ := (exact e).mp (by rw [first]; exact List.mem_cons_self)
    exact written.settled (Rule.next_lexemes Grammar.selector_follows next)
  have listed : ∀ {rest ts selector}, Reads (before ++ ' ' :: rest) ts selector →
      ∃ front back, ts = front ++ back ∧ Written before front ∧ Written rest back ∧ .ofFirst back ∈ options := by
    intro rest ts selector reads
    obtain ⟨front, back, same, left, right, next⟩ := reads.cut settled
    exact ⟨front, back, same, left, right, (exact _).mpr ⟨front, left, next⟩⟩
  have readable : ∀ {rest selector}, parse (.ofList (before ++ ' ' :: rest)) = .ok selector →
      ∃ ts, Reads (before ++ ' ' :: rest) ts selector := by
    intro rest selector parsed
    obtain ⟨ts, reads⟩ := parse_eq_ok_iff.mp parsed
    rw [String.toList_ofList] at reads
    exact ⟨ts, reads⟩
  exact {
    some := some
    distinct := distinct
    ends := by
      intro member
      obtain ⟨ts, written, ⟨t, more, selector, kind, read⟩ | ⟨-, selector, read⟩⟩ := (exact _).mp member
      · have lexeme := Grammar.selector_follows.lexemes read t (by simp)
        simp [Terminal.IsLexeme, kind] at lexeme
      · exact ⟨selector, parse_of_written written read⟩
    goesOn := by
      intro e member other
      obtain ⟨front, written, ⟨t, more, selector, rfl, read⟩ | ⟨rfl, -⟩⟩ := (exact e).mp member
      · have behind : Written (t.text ++ spaced more) (t :: more) :=
          ⟨[], .cons blank_nil (t.closed_of_stops (stops_spaced more)).1 (spells_spaced more), blank_nil⟩
        have lexeme := Grammar.selector_follows.lexemes read t (by simp)
        exact ⟨front, t, more, spaced more, selector, rfl, lexeme, written, behind, read,
          parse_of_written (written.join behind) read⟩
      · exact absurd rfl other
    complete := fun parsed => ⟨readable parsed, fun _ => listed⟩
    stops := by
      intro rest selector parsed blank
      obtain ⟨ts, reads⟩ := readable parsed
      have lexemes := reads_lexemes reads
      obtain ⟨front, back, rfl, -, right, member⟩ := listed reads
      obtain rfl := right.eq_nil_of_blank (fun t inside => lexemes t (by simp [inside])) blank
      exact member }

/-- The classes in an error are exactly those that may come next. -/
theorem parse_expects {text : String} {n : Nat} {options : List Expected} {found : Option String}
    (h : parse text = .error ⟨n, .expected options, found⟩) :
    ∃ before after, text.toList = before ++ after ∧ utf8Length before = n ∧ Expects before options := by
  obtain ⟨failed, rfl, rfl⟩ := Rule.readAll_expected Grammar.selector_follows h
  obtain ⟨before, after, split, length, -⟩ := Rule.toEnd_border Grammar.selector_follows failed
  refine ⟨before, after, split, length, ?_⟩
  refine expects_of_next (Rule.toEnd_expected Grammar.selector_follows failed)
    (Rule.toEnd_made Grammar.selector_follows failed).nodup fun e => ?_
  exact Rule.mem_expected_iff Grammar.selector_follows Grammar.selector_predicts failed split length

theorem parse_expects_after_index :
    parse "1 2" = .error ⟨2, .expected [.symbol ":", .symbol "|", .symbol "/", .symbol ";", .endOfInput], some "2"⟩ ∧
      ∃ before after, "1 2".toList = before ++ after ∧ utf8Length before = 2 ∧
        Expects before [.symbol ":", .symbol "|", .symbol "/", .symbol ";", .endOfInput] :=
  ⟨by rfl, parse_expects (by rfl)⟩

end Selector

end ChunkSelector
