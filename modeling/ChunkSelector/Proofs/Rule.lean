import ChunkSelector.Proofs.Token

/-!
# Rules written after phrases

`Rule.Follows` says that a rule is built as a phrase is, part by part: where the phrase leaves a
choice the rule tries one side first, and where the phrase allows any number the rule takes as many as
it can. What holds of every such rule is proved by induction over that relation. The first law is
`Follows.sound`: a match is a text of the phrase.
-/

namespace ChunkSelector

/-! ### Sequence and choice, by the verdict of the first rule -/

namespace Rule

variable {α β : Type} {rule other : Rule α} {next : α → Rule β} {c d : Cursor} {v : α} {error : SyntaxError}

theorem bind_of_matched (h : (rule c).verdict = .matched v d) :
    (rule >>= next) c = (next v d).after (rule c).trail := by
  simp only [bind_apply, Step.andThen, h]

theorem bind_of_noMatch (h : (rule c).verdict = .noMatch) : (rule >>= next) c = ⟨.noMatch, (rule c).trail⟩ := by
  simp only [bind_apply, Step.andThen, h]

theorem bind_of_invalid (h : (rule c).verdict = .invalid error d) :
    (rule >>= next) c = ⟨.invalid error d, (rule c).trail⟩ := by
  simp only [bind_apply, Step.andThen, h]

theorem orElse_of_noMatch (h : (rule c).verdict = .noMatch) :
    (rule <|> other) c = (other c).after (rule c).trail := by
  simp only [orElse_apply, Step.orElse, h]

theorem orElse_of_matched (h : (rule c).verdict = .matched v d) : (rule <|> other) c = rule c := by
  simp only [orElse_apply, Step.orElse, h]

theorem orElse_of_invalid (h : (rule c).verdict = .invalid error d) : (rule <|> other) c = rule c := by
  simp only [orElse_apply, Step.orElse, h]

theorem bind_matched_iff {w : β} {e : Cursor} : ((rule >>= next) c).verdict = .matched w e ↔
    ∃ v d, (rule c).verdict = .matched v d ∧ (next v d).verdict = .matched w e := by
  cases h : (rule c).verdict with
  | matched v d =>
    rw [bind_of_matched h]
    constructor
    · exact fun matched => ⟨v, d, rfl, matched⟩
    · rintro ⟨_, _, ⟨⟩, matched⟩
      exact matched
  | noMatch => simp [bind_of_noMatch h]
  | invalid error d => simp [bind_of_invalid h]

theorem bind_invalid {e : Cursor} (h : ((rule >>= next) c).verdict = .invalid error e) :
    (rule c).verdict = .invalid error e ∨
      ∃ v d, (rule c).verdict = .matched v d ∧ (next v d).verdict = .invalid error e := by
  cases verdict : (rule c).verdict with
  | matched v d =>
    rw [bind_of_matched verdict] at h
    exact .inr ⟨v, d, rfl, h⟩
  | noMatch =>
    rw [bind_of_noMatch verdict] at h
    cases h
  | invalid error' d =>
    rw [bind_of_invalid verdict] at h
    cases h
    exact .inl rfl

theorem orElse_invalid (h : ((rule <|> other) c).verdict = .invalid error d) :
    (rule c).verdict = .invalid error d ∨ (other c).verdict = .invalid error d := by
  cases verdict : (rule c).verdict with
  | matched v e =>
    rw [orElse_of_matched verdict, verdict] at h
    cases h
  | noMatch =>
    rw [orElse_of_noMatch verdict] at h
    exact .inr h
  | invalid error' e =>
    rw [orElse_of_invalid verdict, verdict] at h
    cases h
    exact .inl rfl

/-! ### Any number of items -/

def many (item : Rule α) : Rule (List α) := fun c =>
  let run := repeated item c.rest c
  match run.fault with
  | some error => ⟨.invalid error run.stop, run.trail⟩
  | none => ⟨.matched run.items run.stop, run.trail⟩

/-- Each match takes a character at least. -/
def Consumes (item : Rule α) : Prop :=
  ∀ c d v, (item c).verdict = .matched v d → d.rest.length < c.rest.length

theorem repeated_bound {item : Rule α} (consumes : item.Consumes) {a b : List Char} {c : Cursor}
    (ha : c.rest.length ≤ a.length) (hb : c.rest.length ≤ b.length) : repeated item a c = repeated item b c := by
  induction a generalizing b c with
  | nil =>
    cases b with
    | nil => rfl
    | cons _ b =>
      rw [repeated, repeated]
      split
      · rename_i value next trail step
        have less := consumes _ _ _ (show (item c).verdict = .matched value next by rw [step])
        simp only [List.length_nil] at ha
        omega
      · rfl
  | cons _ a ih =>
    cases b with
    | nil =>
      rw [repeated, repeated]
      split
      · rename_i value next trail step
        have less := consumes _ _ _ (show (item c).verdict = .matched value next by rw [step])
        simp only [List.length_nil] at hb
        omega
      · rfl
    | cons _ b =>
      rw [repeated, repeated]
      split
      · rename_i value next trail step
        have less := consumes _ _ _ (show (item c).verdict = .matched value next by rw [step])
        simp only [List.length_cons] at ha hb
        rw [ih (b := b) (by omega) (by omega)]
      · rfl

theorem repeated_of_matched {item : Rule α} (consumes : item.Consumes) {bound : List Char}
    (enough : c.rest.length ≤ bound.length) (h : (item c).verdict = .matched v d) :
    repeated item bound c = (repeated item d.rest d).cons v (item c).trail := by
  have less := consumes _ _ _ h
  cases bound with
  | nil =>
    simp only [List.length_nil] at enough
    omega
  | cons _ bound =>
    have step : item c = ⟨.matched v d, (item c).trail⟩ := by rw [← h]
    rw [repeated]
    split
    · rename_i value next trail same
      rw [step] at same
      cases same
      rw [repeated_bound consumes (b := d.rest) (by simp only [List.length_cons] at enough; omega) (Nat.le_refl _)]
    · rename_i other
      exact absurd step (other _ _ _)

theorem repeated_of_not_matched {item : Rule α} (bound : List Char) (h : ∀ v d, (item c).verdict ≠ .matched v d) :
    repeated item bound c = .ofFailure c (item c) := by
  cases bound with
  | nil => rfl
  | cons _ bound =>
    rw [repeated]
    split
    · rename_i step
      exact absurd (by rw [step]) (h _ _)
    · rfl

theorem many_of_matched {item : Rule α} (consumes : item.Consumes) (h : (item c).verdict = .matched v d) :
    many item c = (((v :: ·) <$> many item : Rule (List α)) d).after (item c).trail := by
  have unfolded := repeated_of_matched consumes (Nat.le_refl c.rest.length) h
  simp only [many, unfolded, Run.cons]
  change _ = ((many item d).andThen fun items e => ⟨.matched (v :: items) e, .empty⟩).after _
  simp only [many]
  split
  · simp [Step.andThen, Step.after]
  · simp [Step.andThen, Step.after]

theorem many_of_noMatch {item : Rule α} (h : (item c).verdict = .noMatch) :
    many item c = ⟨.matched [] c, (item c).trail⟩ := by
  simp only [many, repeated_of_not_matched c.rest (by simp [h] : ∀ v d, (item c).verdict ≠ .matched v d),
    Run.ofFailure, h]

theorem many_of_invalid {item : Rule α} (h : (item c).verdict = .invalid error d) :
    many item c = ⟨.invalid error d, (item c).trail⟩ := by
  simp only [many, repeated_of_not_matched c.rest (by simp [h] : ∀ v d, (item c).verdict ≠ .matched v d),
    Run.ofFailure, h]

theorem separated_eq (separator : Rule Unit) (item : Rule α) :
    separated separator item = (do
      let first ← item
      let more ← many (do separator; item)
      return first :: more) := by
  funext c
  rw [separated, run]
  split
  · rename_i value next trail step
    rw [bind_of_matched (by rw [step])]
    change _ = ((many _ next).andThen fun items e => ⟨.matched (value :: items) e, .empty⟩).after _
    simp only [many, Run.cons, Run.toStep, step]
    generalize repeated _ next.rest next = run
    cases run.fault with
    | some error => simp [Step.andThen, Step.after]
    | none => simp [Step.andThen, Step.after]
  · rename_i other
    cases h : (item c).verdict with
    | matched v d => exact absurd (by rw [← h]) (other v d (item c).trail)
    | noMatch => simp [bind_of_noMatch h, Run.ofFailure, h, Run.toStep]
    | invalid error d => simp [bind_of_invalid h, Run.ofFailure, h, Run.toStep]

end Rule

/-! ### Texts and terminals -/

namespace Terminal

variable {t : Terminal}

theorem not_quote_of_symbol : ∀ w ∈ symbols, w.toList.head? ≠ some '"' := by
  decide

/-- A lexeme is a string, or it has a visible character in front and then only such as go on with a lexeme. -/
theorem IsLexeme.shape (h : t.IsLexeme) : (∃ body, Lexeme.IsBody body ∧ t.text = '"' :: body ++ ['"']) ∨
    ∃ c more, t.text = c :: more ∧ isBlank c = false ∧ c ≠ '"' ∧ ((∃ w, t.kind = .symbol w) ∨ opensToken c = true) ∧
      ∀ d ∈ more, goesOn d = true := by
  obtain ⟨kind, text⟩ := t
  have of_starts : ∀ {starts : Char → Prop}, (∀ c, starts c → opensToken c = true) →
      (∃ c more, text = c :: more ∧ isBlank c = false ∧ starts c ∧ ∀ d ∈ more, goesOn d = true) →
      ∃ c more, text = c :: more ∧ isBlank c = false ∧ c ≠ '"' ∧ ((∃ w, kind = .symbol w) ∨ opensToken c = true) ∧
        ∀ d ∈ more, goesOn d = true := by
    rintro starts opens ⟨c, more, begins, visible, start, goes⟩
    have opened := opens c start
    refine ⟨c, more, begins, visible, ?_, .inr opened, goes⟩
    rintro rfl
    exact absurd opened (by decide)
  have of_digit : ∀ c : Char, c.isDigit = true → opensToken c = true := by
    intro c digit
    simp [opensToken, Char.isAlphanum, digit]
  cases kind with
  | symbol w =>
    obtain ⟨known, _, ⟨⟩, rfl⟩ := h
    obtain ⟨c, more, begins, visible, start, goes⟩ := (Token.symbol_cuts known).begins rfl
    refine .inr ⟨c, more, begins, visible, ?_, .inl ⟨w, rfl⟩, goes⟩
    rintro rfl
    exact not_quote_of_symbol w known start
  | token k =>
    cases k with
    | integer =>
      obtain ⟨_, _, ⟨⟩, form, -⟩ := h
      refine .inr (of_starts ?_ (Token.integer_cuts.begins form))
      rintro c (digit | rfl)
      · exact of_digit c digit
      · decide
    | float =>
      obtain ⟨_, _, ⟨⟩, form, -⟩ := h
      refine .inr (of_starts ?_ (Token.float_cuts.begins form))
      rintro c (digit | rfl | rfl)
      · exact of_digit c digit
      · decide
      · decide
    | attributeIndex =>
      obtain ⟨_, _, ⟨⟩, form, -⟩ := h
      refine .inr (of_starts ?_ (Token.attributeIndex_cuts.begins form))
      rintro _ rfl
      decide
    | identifier =>
      obtain ⟨_, _, ⟨⟩, form, -⟩ := h
      refine .inr (of_starts (fun c letter => ?_) (Token.identifier_cuts.begins form))
      simp [opensToken, Char.isAlphanum, letter]
    | comparator =>
      obtain ⟨op, _, ⟨⟩, rfl⟩ := h
      refine .inr (of_starts ?_ (Token.comparator_shape op))
      simp [Token.comparatorStart, opensToken]
    | string =>
      obtain ⟨_, _, ⟨⟩, body, form, rfl, -⟩ := h
      exact .inl ⟨body, form, rfl⟩
    | named => exact h.elim
  | endOfInput => exact h.elim

theorem IsLexeme.begins (h : t.IsLexeme) : ∃ c more, t.text = c :: more ∧ isBlank c = false := by
  rcases h.shape with ⟨body, -, same⟩ | ⟨c, more, same, visible, -⟩
  · exact ⟨'"', _, same, by decide⟩
  · exact ⟨c, more, same, visible⟩

end Terminal

namespace Spells

theorem append {a b c : List Char} {ts us : List Terminal} (left : Spells a ts b) (right : Spells b us c) :
    Spells a (ts ++ us) c := by
  induction left with
  | nil => exact right
  | cons blank ends _ ih => exact .cons blank ends (ih right)

theorem after_blanks {blanks a b : List Char} {t : Terminal} {ts : List Terminal} (blank : Blank blanks)
    (h : Spells a (t :: ts) b) : Spells (blanks ++ a) (t :: ts) b := by
  cases h with
  | cons blank' ends more =>
    rw [List.append_assoc, ← List.append_assoc, ← List.append_assoc]
    exact .cons (blank_append.mpr ⟨blank, blank'⟩) ends more

theorem suffix {a b : List Char} {ts : List Terminal} (h : Spells a ts b) : b <:+ a := by
  induction h with
  | nil => exact List.suffix_rfl
  | @cons blanks t rest ts after _ _ _ ih => exact ih.trans (List.suffix_append _ _)

theorem length_le {a b : List Char} {ts : List Terminal} (h : Spells a ts b) (lexemes : ∀ t ∈ ts, t.IsLexeme) :
    b.length + ts.length ≤ a.length := by
  induction h with
  | nil => simp
  | @cons blanks t rest ts after _ _ _ ih =>
    obtain ⟨c, more, same, -⟩ := (lexemes t (by simp)).begins
    have shorter := ih fun u member => lexemes u (by simp [member])
    simp only [same, List.length_append, List.length_cons]
    omega

theorem split {a c : List Char} {ts us : List Terminal} (h : Spells a (ts ++ us) c) :
    ∃ b, Spells a ts b ∧ Spells b us c := by
  induction ts generalizing a with
  | nil => exact ⟨a, .nil a, h⟩
  | cons t ts ih =>
    cases h with
    | cons blank ends more =>
      obtain ⟨b, left, right⟩ := ih more
      exact ⟨b, .cons blank ends left, right⟩

end Spells

/-- Between two cursors of one text stand these terminals. -/
def Cursor.Passes (c : Cursor) (ts : List Terminal) (d : Cursor) : Prop :=
  d.textLength = c.textLength ∧ Spells c.rest ts d.rest

namespace Cursor

variable {c d e : Cursor} {t : Terminal} {ts us : List Terminal}

theorem passes_nil_iff : c.Passes [] d ↔ d = c := by
  constructor
  · rintro ⟨length, spelled⟩
    generalize text : c.rest = text at spelled
    generalize same : d.rest = rest at spelled
    cases spelled
    exact ext_of_rest (same.trans text.symm) length
  · rintro rfl
    exact ⟨rfl, .nil _⟩

theorem Passes.append (left : c.Passes ts d) (right : d.Passes us e) : c.Passes (ts ++ us) e :=
  ⟨right.1.trans left.1, left.2.append right.2⟩

theorem exists_passes (c : Cursor) {rest : List Char} (h : Spells c.rest ts rest) : ∃ d, c.Passes ts d ∧ d.rest = rest := by
  have shorter := utf8Length_le_of_suffix h.suffix
  refine ⟨⟨c.textLength - utf8Length rest, rest⟩, ⟨?_, h⟩, rfl⟩
  simp only [textLength]
  omega

theorem Passes.split (h : c.Passes (ts ++ us) e) : ∃ d, c.Passes ts d ∧ d.Passes us e := by
  obtain ⟨length, spelled⟩ := h
  obtain ⟨_, left, right⟩ := spelled.split
  obtain ⟨d, passes, rfl⟩ := c.exists_passes left
  exact ⟨d, passes, length.trans passes.1.symm, right⟩

theorem Passes.offset_le (h : c.Passes ts d) : c.offset ≤ d.offset := by
  have shorter := utf8Length_le_of_suffix h.2.suffix
  have same := h.1
  simp only [textLength] at same
  omega

theorem Passes.lead {ch : Char} {more : List Char} (h : c.Passes (t :: ts) d) (begins : t.text = ch :: more)
    (visible : isBlank ch = false) : lead c.rest = some ch := by
  obtain ⟨-, spelled⟩ := h
  generalize c.rest = text at spelled ⊢
  cases spelled with
  | cons blank _ _ =>
    rw [List.append_assoc, lead_append_of_blank blank, begins]
    exact lead_cons_of_visible visible _

/-- The cursor stands in the text. -/
def In (c : Cursor) (text : List Char) : Prop := ∃ before, text = before ++ c.rest ∧ utf8Length before = c.offset

theorem Passes.inside {text : List Char} (passes : c.Passes ts d) (h : c.In text) : d.In text := by
  obtain ⟨before, rfl, offset⟩ := h
  obtain ⟨length, spelled⟩ := passes
  obtain ⟨piece, same⟩ := spelled.suffix
  refine ⟨before ++ piece, by rw [← same, List.append_assoc], ?_⟩
  simp only [textLength, ← same, utf8Length_append] at length ⊢
  omega

end Cursor

/-! ### Rules built as phrases are -/

namespace Phrase

/-- Some text is of the phrase. -/
def Productive (p : Phrase α) : Prop := ∃ ts v, p ts v

/-- The phrase has a terminal at least. -/
def Solid (p : Phrase α) : Prop := ∀ v, ¬ p [] v

variable {α β : Type} {p q : Phrase α}

theorem solid_terminal {kind : Expected} {means : List Char → α → Prop} : (terminal kind means).Solid := by
  rintro v ⟨text, same, -⟩
  cases same

theorem solid_bind_left {next : α → Phrase β} (h : p.Solid) : (p >>= next).Solid := by
  rintro v ⟨first, more, a, same, head, -⟩
  obtain ⟨rfl, rfl⟩ := List.append_eq_nil_iff.mp same.symm
  exact h a head

end Phrase

namespace Rule

/-- The rule is built as the phrase is. -/
inductive Follows : {α : Type} → Rule α → Phrase α → Prop where
  | terminal {α : Type} {rule : Rule α} {kind : Expected} {means : List Char → α → Prop} {starts : Char → Prop}
      (takes : rule.Takes kind means starts) (productive : (Phrase.terminal kind means).Productive) :
      Follows rule (.terminal kind means)
  | pure {α : Type} (value : α) : Follows (Pure.pure value) (Pure.pure value)
  | bind {α β : Type} {rule : Rule α} {phrase : Phrase α} {next : α → Rule β} {further : α → Phrase β}
      (first : Follows rule phrase) (rest : ∀ a, Follows (next a) (further a)) :
      Follows (rule >>= next) (phrase >>= further)
  | orElse {α : Type} {rule other : Rule α} {p q : Phrase α} (left : Follows rule p) (right : Follows other q) :
      Follows (rule <|> other) (p.either q)
  | many {α : Type} {item : Rule α} {phrase : Phrase α} (item_follows : Follows item phrase)
      (solid : phrase.Solid) : Follows item.many phrase.many

namespace Follows

variable {α β : Type} {rule : Rule α} {phrase : Phrase α}

theorem map (f : α → β) (h : Follows rule phrase) : Follows (f <$> rule) (f <$> phrase) := by
  change Follows (rule >>= fun a => Pure.pure (f a)) (phrase >>= fun a => Pure.pure (f a))
  exact .bind h fun a => .pure (f a)

theorem optional (h : Follows rule phrase) : Follows rule.optional phrase.maybe :=
  .orElse (h.map some) (.pure none)

theorem separated {separator : Rule Unit} {bar : Phrase Unit} (hs : Follows separator bar) (solid : bar.Solid)
    (h : Follows rule phrase) : Follows (Rule.separated separator rule) (Phrase.list bar phrase) := by
  rw [separated_eq]
  have further : Follows (do separator; rule) (do bar; phrase) := .bind hs fun _ => h
  exact .bind h fun first => .bind (.many further (Phrase.solid_bind_left solid)) fun more => .pure _

theorem productive (h : Follows rule phrase) : phrase.Productive := by
  induction h with
  | terminal _ productive => exact productive
  | pure value => exact ⟨[], value, rfl, rfl⟩
  | bind _ _ ihFirst ihRest =>
    obtain ⟨ts, a, head⟩ := ihFirst
    obtain ⟨us, v, tail⟩ := ihRest a
    exact ⟨ts ++ us, v, ts, us, a, rfl, head, tail⟩
  | orElse _ _ ihLeft _ =>
    obtain ⟨ts, v, read⟩ := ihLeft
    exact ⟨ts, v, .inl read⟩
  | many _ _ _ => exact ⟨[], [], .nil⟩

theorem lexemes (h : Follows rule phrase) {ts : List Terminal} {v : α} (read : phrase ts v) :
    ∀ t ∈ ts, t.IsLexeme := by
  induction h generalizing ts with
  | terminal takes _ =>
    obtain ⟨text, rfl, meant⟩ := read
    intro t member
    obtain rfl := List.mem_singleton.mp member
    exact takes.lexeme meant
  | pure value =>
    obtain ⟨rfl, rfl⟩ := read
    simp
  | bind _ _ ihFirst ihRest =>
    obtain ⟨first, more, a, rfl, head, tail⟩ := read
    intro t member
    rcases List.mem_append.mp member with member | member
    · exact ihFirst head t member
    · exact ihRest a tail t member
  | orElse _ _ ihLeft ihRight =>
    rcases read with read | read
    · exact ihLeft read
    · exact ihRight read
  | many _ _ ih =>
    induction read with
    | nil => simp
    | cons head _ ihTail =>
      intro t member
      rcases List.mem_append.mp member with member | member
      · exact ih head t member
      · exact ihTail t member

theorem consumes_of_reads (h : Follows rule phrase) (solid : phrase.Solid)
    (reads : ∀ c d v, (rule c).verdict = .matched v d → ∃ ts, c.Passes ts d ∧ phrase ts v) : rule.Consumes := by
  intro c d v matched
  obtain ⟨ts, passes, read⟩ := reads c d v matched
  have shorter := passes.2.length_le (h.lexemes read)
  cases ts with
  | nil => exact absurd read (solid v)
  | cons t ts =>
    simp only [List.length_cons] at shorter
    omega

theorem sound (h : Follows rule phrase) {c d : Cursor} {v : α} (matched : (rule c).verdict = .matched v d) :
    ∃ ts, c.Passes ts d ∧ phrase ts v := by
  induction h generalizing c d with
  | terminal takes _ =>
    obtain ⟨-, length, text, same, meant, ends, -⟩ := takes.matched matched
    refine ⟨_, ⟨length, ?_⟩, text, rfl, meant⟩
    have blank : Blank (c.rest.takeWhile isBlank) := mem_takeWhile_holds
    have spelled := Spells.cons blank ends (.nil d.rest)
    rw [List.append_assoc, ← same, Cursor.rest_skipBlanks, List.takeWhile_append_dropWhile] at spelled
    exact spelled
  | pure value =>
    cases matched
    exact ⟨[], Cursor.passes_nil_iff.mpr rfl, rfl, rfl⟩
  | bind _ _ ihFirst ihRest =>
    obtain ⟨a, e, first, second⟩ := bind_matched_iff.mp matched
    obtain ⟨ts, left, head⟩ := ihFirst first
    obtain ⟨us, right, tail⟩ := ihRest a second
    exact ⟨ts ++ us, left.append right, ts, us, a, rfl, head, tail⟩
  | @orElse _ rule other _ _ _ _ ihLeft ihRight =>
    cases left : (rule c).verdict with
    | matched w e =>
      rw [orElse_of_matched left] at matched
      obtain ⟨ts, passes, read⟩ := ihLeft matched
      exact ⟨ts, passes, .inl read⟩
    | noMatch =>
      rw [orElse_of_noMatch left] at matched
      obtain ⟨ts, passes, read⟩ := ihRight matched
      exact ⟨ts, passes, .inr read⟩
    | invalid error e =>
      rw [orElse_of_invalid left, left] at matched
      cases matched
  | @many _ item _ follows solid ih =>
    have consumes := follows.consumes_of_reads solid fun c d v matched => ih matched
    -- The items are read one by one, each further on in the text.
    induction size : c.rest.length using Nat.strongRecOn generalizing c d v with
    | ind n ihLength =>
      cases first : (item c).verdict with
      | matched a e =>
        rw [many_of_matched consumes first] at matched
        obtain ⟨more, d', rest, finish⟩ := bind_matched_iff.mp matched
        cases finish
        obtain ⟨ts, left, head⟩ := ih first
        obtain ⟨us, right, tail⟩ := ihLength _ (size ▸ consumes _ _ _ first) rest rfl
        exact ⟨ts ++ us, left.append right, .cons head tail⟩
      | noMatch =>
        rw [many_of_noMatch first] at matched
        cases matched
        exact ⟨[], Cursor.passes_nil_iff.mpr rfl, .nil⟩
      | invalid error e =>
        rw [many_of_invalid first] at matched
        cases matched

theorem consumes (h : Follows rule phrase) (solid : phrase.Solid) : rule.Consumes :=
  h.consumes_of_reads solid fun _ _ _ matched => h.sound matched

end Follows

end Rule

end ChunkSelector
