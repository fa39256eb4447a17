import ChunkSelector.Proofs.Grammar
import ChunkSelector.Proofs.Lookahead

/-!
# The grammar is decided by one character

`selector_predicts` and its companions, one for each rule of the grammar. Three choices need more
than the first character of the alternatives: an index may begin a slice, an attribute may begin a
comparison or a call, and a slash comes before an order as it does before hyperslices.
-/

namespace ChunkSelector.Grammar

open Rule Phrase Token

/-! ### Tokens -/

instance : DecidablePred integerStart := fun c => inferInstanceAs (Decidable (c.isDigit = true ∨ c = '-'))

instance : DecidablePred floatStart := fun c => inferInstanceAs (Decidable (c.isDigit = true ∨ c = '-' ∨ c = '.'))

instance : DecidablePred comparatorStart := fun c => inferInstanceAs (Decidable (c ∈ ['=', '!', '<', '>']))

theorem symbol_predicts {text : String} {follow : Char → Prop} (known : text ∈ Terminal.symbols) (mark : follow '#') :
    Predicts (Token.symbol text) (Phrase.symbol text) follow := .terminal (symbol_takes known) mark (by simp)

theorem symbol_opens {text : String} {first : Char} (known : text ∈ Terminal.symbols)
    (begins : text.toList.head? = some first) : (Phrase.symbol text).Opens (· = first) :=
  (Opens.terminal (symbol_takes known)).weaken fun _ start => Option.some.inj (start.symm.trans begins)

theorem symbol_fails {text : String} {first : Char} (known : text ∈ Terminal.symbols)
    (begins : text.toList.head? = some first) : (Token.symbol text).Fails (· = first) :=
  Fails.weaken (fun _ => (symbol_takes known).fails) fun _ start => Option.some.inj (start.symm.trans begins)

theorem integer_predicts {follow : Char → Prop} (mark : follow '#') : Predicts Token.integer Phrase.integer follow :=
  .terminal integer_takes mark (by simp)

theorem integer_fails : Token.integer.Fails integerStart := fun _ => integer_takes.fails

theorem integer_opens : Phrase.integer.Opens integerStart := .terminal integer_takes

theorem optional_integer_predicts {follow : Char → Prop} (mark : follow '#') (apart : ∀ ch, follow ch → ¬ integerStart ch) :
    Predicts (Rule.optional Token.integer) Phrase.integer.maybe follow := (integer_predicts mark).optional integer_fails apart

theorem float_predicts {follow : Char → Prop} (mark : follow '#') : Predicts Token.float Phrase.float follow :=
  .terminal float_takes mark (by simp)

theorem string_predicts {follow : Char → Prop} (mark : follow '#') : Predicts Token.string Phrase.string follow :=
  .terminal string_takes mark (by simp)

theorem string_fails : Token.string.Fails (· = '"') := fun _ => string_takes.fails

theorem string_opens : Phrase.string.Opens (· = '"') := .terminal string_takes

theorem attributeIndex_predicts {follow : Char → Prop} (mark : follow '#') :
    Predicts Token.attributeIndex Phrase.attributeIndex follow := .terminal attributeIndex_takes mark (by simp)

theorem attributeIndex_fails : Token.attributeIndex.Fails (· = 'a') := fun _ => attributeIndex_takes.fails

theorem identifier_predicts {follow : Char → Prop} (mark : follow '#') :
    Predicts Token.identifier Phrase.identifier follow := .terminal identifier_takes mark (by simp)

theorem identifier_fails : Token.identifier.Fails (·.isAlpha = true) := fun _ => identifier_takes.fails

theorem comparator_predicts {follow : Char → Prop} (mark : follow '#') (apart : ¬ follow '=') :
    Predicts Token.comparator Phrase.comparator follow := .terminal comparator_takes mark fun _ => apart

theorem comparator_fails : Token.comparator.Fails comparatorStart := fun _ => comparator_takes.fails

/-! ### Dimensions -/

def afterDimension : List Char := [',', '|', '/', ';', '#']

def dimensionStart (c : Char) : Prop := integerStart c ∨ c = ':' ∨ c = '.'

instance : DecidablePred dimensionStart := fun c => inferInstanceAs (Decidable (integerStart c ∨ c = ':' ∨ c = '.'))

theorem colon_opens : (Phrase.symbol ":").Opens (· = ':') := symbol_opens (by decide) rfl

theorem colon_fails : (Token.symbol ":").Fails (· = ':') := symbol_fails (by decide) rfl

theorem slice_predicts : Predicts slice Phrase.slice (· ∈ afterDimension) := by
  have mark : '#' ∈ afterDimension := by decide
  have away : ∀ ch ∈ afterDimension, ¬ integerStart ch := by decide
  have apart : ∀ ch, ch = ':' ∨ ch ∈ afterDimension → ¬ integerStart ch := by
    rintro ch (rfl | member)
    · decide
    · exact away ch member
  have integer := optional_integer_predicts mark away
  -- What stands before a colon, before the step, and before its integer.
  have bound : Predicts (Rule.optional Token.integer) Phrase.integer.maybe (¬ integerStart ·) :=
    optional_integer_predicts (by decide) fun _ => id
  have colon : Predicts (Token.symbol ":") (Phrase.symbol ":") fun _ => True := symbol_predicts (by decide) trivial
  have second : Predicts (Rule.optional (Token.symbol ":")) (Phrase.symbol ":").maybe (· ≠ ':') :=
    (symbol_predicts (by decide) (by decide)).optional colon_fails fun _ => id
  rw [slice_eq]
  refine bound.bind (fun start => ?_) (fun _ => colon_opens.bind_solid solid_terminal) mark apart
  refine colon.andThen (fun _ => ?_) mark
  refine bound.bind (fun stop => ?_) (fun stop => ?_) mark apart
  · refine second.bind (fun step => ?_) (fun step => (?_ : Phrase.Opens _ integerStart)) mark ?_
    · cases step with
      | none => exact .pure mark
      | some _ => exact integer.map _
    · cases step with
      | none => exact .pure
      | some _ => exact integer_opens.maybe.map
    · rintro _ (start | member) rfl
      · exact absurd start (by decide)
      · exact absurd member (by decide)
  · rw [← step_eq]
    exact (colon_opens.bind_solid solid_terminal).maybe.map

theorem slice_fails : slice.Fails (fun ch => integerStart ch ∨ ch = ':') :=
  .optional_bind (integer_fails.weaken fun _ => .inl) (.bind (colon_fails.weaken fun _ => .inr))

theorem slice_opens : Phrase.slice.Opens (fun ch => integerStart ch ∨ ch = ':') :=
  (integer_opens.maybe.weaken fun _ => .inl).bind fun _ =>
    (colon_opens.weaken fun _ => .inr).bind_solid solid_terminal

/-- An index is no slice, for no colon follows it. -/
theorem slice_yields {c d : Cursor} {ts : List Terminal} (passes : c.Passes ts d)
    (ahead : Phrase.integer.Ahead (· ∈ afterDimension) ts d) : (slice c).verdict = .noMatch := by
  rcases ahead.of_terminal with ⟨text, n, rfl, meant, ends⟩ | ⟨rfl, mark⟩
  · have read : Phrase.integer.maybe [⟨.token .integer, text⟩] (some n) := maybe_some_iff.mpr ⟨text, rfl, meant⟩
    have integer := optional_integer_predicts (by decide : '#' ∈ afterDimension) (by decide)
    have failed : (Token.symbol ":" d).verdict = .noMatch := by
      refine colon_fails d ?_
      rintro _ member rfl
      exact absurd (ends ':' member) (by decide)
    rw [slice, bind_of_matched (integer.reads passes read ends)]
    exact congrArg Step.verdict (bind_of_noMatch failed)
  · obtain rfl := Cursor.passes_nil_iff.mp passes
    refine slice_fails d ?_
    rw [mark]
    rintro _ ⟨⟩
    decide

theorem ellipsis_opens : Opens (do Phrase.symbol "..."; return Dimension.ellipsis) (· = '.') :=
  (symbol_opens (by decide) rfl).bind_solid solid_terminal

theorem ellipsis_fails : Fails (do Token.symbol "..."; return Dimension.ellipsis) (· = '.') :=
  (symbol_fails (by decide) rfl).bind

theorem dimension_predicts : Predicts dimension Phrase.dimension (· ∈ afterDimension) := by
  have mark : '#' ∈ afterDimension := by decide
  have ellipsis : Predicts (do Token.symbol "..."; return Dimension.ellipsis)
      (do Phrase.symbol "..."; return Dimension.ellipsis) (· ∈ afterDimension) :=
    (symbol_predicts (by decide) trivial).andThen (fun _ => .pure mark) mark
  refine (slice_predicts.map _).orElse (ellipsis.orElse ((integer_predicts mark).map _) ?_) ?_
  · intro c d ts passes ahead
    refine ellipsis_fails.of_ahead ahead passes (solid_map solid_terminal) integer_opens.map ?_
    rintro _ either rfl
    exact absurd either (by decide)
  · intro c d ts passes ahead
    refine map_of_noMatch ?_
    rcases ahead.of_either with ahead | ahead
    · refine slice_fails.of_ahead ahead passes (solid_bind_left solid_terminal) ellipsis_opens ?_
      rintro _ (rfl | rfl) <;> decide
    · exact slice_yields passes ahead.of_map

theorem dimension_opens : Phrase.dimension.Opens dimensionStart := by
  refine (slice_opens.map.weaken ?_).either ((ellipsis_opens.weaken ?_).either (integer_opens.map.weaken fun _ => .inl))
  · exact fun ch start => start.imp id .inl
  · exact fun ch start => .inr (.inr start)

theorem slice_solid : Phrase.slice.Solid := by
  rintro v ⟨first, more, start, same, -, rest⟩
  obtain ⟨rfl, rfl⟩ := List.append_eq_nil_iff.mp same.symm
  exact solid_bind_left solid_terminal v rest

theorem dimension_solid : Phrase.dimension.Solid :=
  solid_either (solid_map slice_solid) (solid_either (solid_bind_left solid_terminal) (solid_map solid_terminal))

/-! ### Comparisons -/

theorem lead_of_head {text : List Char} {c : Char} (visible : isBlank c = false) (h : c ∈ text.head?) : c ∈ lead text := by
  obtain ⟨rest, rfl⟩ := List.head?_eq_some_iff.mp h
  exact lead_cons_of_visible visible rest

/-- An integer is no float, for no point follows it. -/
theorem float_yields {c d : Cursor} {ts : List Terminal} (passes : c.Passes ts d)
    (ahead : Phrase.integer.Ahead (· ≠ '.') ts d) : (Token.float c).verdict = .noMatch := by
  rcases ahead.of_terminal with ⟨text, n, rfl, meant, ends⟩ | ⟨rfl, mark⟩
  · obtain ⟨ch, more, begins, visible, -⟩ := integer_takes.begins meant
    obtain ⟨same, full⟩ := passes.single begins visible
    have none : Lexeme.float c.skipBlanks.rest = none := by
      rw [same]
      exact Lexeme.float_of_integer meant.1 full fun ch member point => ends '.' (lead_of_head (by decide) (point ▸ member)) rfl
    rw [Token.float, lexeme_of_none none]
  · obtain rfl := Cursor.passes_nil_iff.mp passes
    refine float_takes.fails ?_
    rw [mark]
    rintro _ ⟨⟩
    decide

theorem number_predicts : Predicts Token.number Phrase.number (· ≠ '.') :=
  ((float_predicts (by decide)).map _).orElse ((integer_predicts (by decide)).map _) fun passes ahead =>
    map_of_noMatch (float_yields passes ahead.of_map)

theorem number_fails : Token.number.Fails floatStart := by
  refine (Fails.map fun _ => float_takes.fails).orElse (integer_fails.map.weaken ?_)
  exact fun ch start => start.imp id .inl

theorem number_opens : Phrase.number.Opens floatStart := by
  refine (Opens.terminal float_takes).map.either (integer_opens.map.weaken ?_)
  exact fun ch start => start.imp id .inl

theorem number_solid : Phrase.number.Solid := solid_either (solid_map solid_terminal) (solid_map solid_terminal)

theorem literal_solid : Phrase.literal.Solid := solid_either (solid_map number_solid) (solid_map solid_terminal)

theorem literal_predicts : Predicts literal Phrase.literal (· ≠ '.') := by
  refine (number_predicts.map _).orElse ((string_predicts (by decide)).map _) fun passes ahead => ?_
  refine number_fails.map.of_ahead ahead passes (solid_map solid_terminal) string_opens.map ?_
  rintro _ (rfl | rfl) <;> decide

theorem literal_opens : Phrase.literal.Opens (fun ch => floatStart ch ∨ ch = '"') :=
  (number_opens.map.weaken fun _ => .inl).either (string_opens.map.weaken fun _ => .inr)

theorem comparison_predicts : Predicts comparison Phrase.comparison (· ∉ ['.', '=']) := by
  have index : Predicts Token.attributeIndex Phrase.attributeIndex fun _ => True := attributeIndex_predicts trivial
  have op : Predicts Token.comparator Phrase.comparator (· ≠ '=') := comparator_predicts (by decide) (by simp)
  have mark : '#' ∉ ['.', '='] := by decide
  refine index.andThen (fun _ => op.bind (fun _ => ?_) (fun _ => literal_opens.map) mark ?_) mark
  · exact (literal_predicts.weaken mark fun ch away => by simp at away; exact away.1).map _
  · rintro _ (start | away) rfl
    · exact absurd start (by decide)
    · exact absurd away (by decide)

theorem comparison_fails : comparison.Fails (· = 'a') := attributeIndex_fails.bind

theorem comparison_solid : Phrase.comparison.Solid := solid_bind_left solid_terminal

def continuing : List Char := ['.', '=', 'a', 'o']

theorem conjunction_predicts : Predicts (chain .and (.comparison <$> comparison))
    (Phrase.chain .and (.comparison <$> Phrase.comparison)) (· ∉ ['.', '=', 'a']) := by
  have follows : Follows (.comparison <$> comparison : Rule Condition) (.comparison <$> Phrase.comparison) :=
    comparison_follows.map _
  refine ((comparison_predicts.map _).separated (by decide) rfl follows (by decide) (by decide) ?_ (by decide)).map _
  simp +contextual

theorem condition_predicts : Predicts condition Phrase.condition (· ∉ continuing) := by
  have follows := chain_follows .and (comparison_follows.map Condition.comparison)
  refine (conjunction_predicts.separated (by decide) rfl follows (by decide) (by decide) ?_ (by decide)).map _
  simp +contextual [continuing]

theorem condition_fails : condition.Fails (· = 'a') := comparison_fails.map.separated.map.separated.map

theorem condition_of_noMatch {c : Cursor} (h : (comparison c).verdict = .noMatch) : (condition c).verdict = .noMatch :=
  map_of_noMatch (separated_of_noMatch (map_of_noMatch (separated_of_noMatch (map_of_noMatch h))))

/-! ### Calls -/

def argumentStart (c : Char) : Prop := c = 'a' ∨ c = '"' ∨ floatStart c

instance : DecidablePred argumentStart := fun c => inferInstanceAs (Decidable (c = 'a' ∨ c = '"' ∨ floatStart c))

theorem argument_predicts : Predicts argument Phrase.argument (· ≠ '.') := by
  refine ((attributeIndex_predicts (by decide)).map _).orElse
    (((string_predicts (by decide)).map _).orElse (number_predicts.map _) fun passes ahead => ?_) fun passes ahead => ?_
  · refine string_fails.map.of_ahead ahead passes (solid_map number_solid) number_opens.map ?_
    rintro _ either rfl
    exact absurd either (by decide)
  · rcases ahead.of_either with ahead | ahead
    · refine attributeIndex_fails.map.of_ahead ahead passes (solid_map solid_terminal) string_opens.map ?_
      rintro _ (rfl | rfl) <;> decide
    · refine attributeIndex_fails.map.of_ahead ahead passes (solid_map number_solid) number_opens.map ?_
      rintro _ either rfl
      exact absurd either (by decide)

theorem argument_solid : Phrase.argument.Solid :=
  solid_either (solid_map solid_terminal) (solid_either (solid_map solid_terminal) (solid_map number_solid))

theorem argument_fails : argument.Fails argumentStart :=
  (attributeIndex_fails.map.weaken fun _ => .inl).orElse
    ((string_fails.map.weaken fun _ start => .inr (.inl start)).orElse (number_fails.map.weaken fun _ start => .inr (.inr start)))

def afterAttribute : List Char := ['|', '/', ';', '#']

theorem call_predicts : Predicts call Phrase.call (· ∈ afterAttribute) := by
  have mark : '#' ∈ afterAttribute := by decide
  have name : Predicts Token.identifier Phrase.identifier fun _ => True := identifier_predicts trivial
  have opening : Predicts (Token.symbol "(") (Phrase.symbol "(") fun _ => True := symbol_predicts (by decide) trivial
  have closing : Predicts (Token.symbol ")") (Phrase.symbol ")") fun _ => True := symbol_predicts (by decide) trivial
  have closing_opens : (Phrase.symbol ")").Opens (· = ')') := symbol_opens (by decide) rfl
  have arguments : Predicts (Rule.separated (Token.symbol ",") argument) (Phrase.list (Phrase.symbol ",") Phrase.argument)
      fun ch => ¬ argumentStart ch ∧ ch ≠ ',' := by
    refine argument_predicts.separated (by decide) rfl argument_follows (by decide) (by decide) ?_ (by decide)
    rintro _ ⟨away, -⟩ rfl
    exact away (by decide)
  have optional := arguments.optional argument_fails.separated fun _ => And.left
  refine name.andThen (fun _ => opening.andThen (fun _ => ?_) mark) mark
  refine optional.bind (fun _ => closing.andThen (fun _ => .pure mark) mark)
    (fun _ => closing_opens.bind_solid solid_terminal) mark ?_
  have away : ∀ ch ∈ afterAttribute, ¬ argumentStart ch ∧ ch ≠ ',' := by decide
  rintro ch (rfl | member)
  · decide
  · exact away ch member

theorem call_fails : call.Fails (·.isAlpha = true) := identifier_fails.bind

/-! ### Attributes -/

theorem not_alpha_of_digit {c : Char} (h : c.isDigit = true) : ¬ c.isAlpha = true := by
  intro alpha
  have digits : 48 ≤ c.toNat ∧ c.toNat ≤ 57 := Char.isDigit_iff_toNat.mp h
  have letters := Token.alpha_bounds alpha
  omega

theorem not_alpha_of_dimensionStart : ∀ ch, dimensionStart ch ∨ ch = '#' → ¬ ch.isAlpha = true := by
  rintro ch (((digit | rfl) | rfl | rfl) | rfl)
  · exact not_alpha_of_digit digit
  all_goals decide

/-- An attribute without a comparator behind it is no comparison. -/
theorem comparison_yields_index {c d : Cursor} {ts : List Terminal} (passes : c.Passes ts d)
    (ahead : Phrase.attributeIndex.Ahead (· ∈ afterAttribute) ts d) : (comparison c).verdict = .noMatch := by
  rcases ahead.of_terminal with ⟨text, n, rfl, meant, ends⟩ | ⟨rfl, mark⟩
  · have index : Predicts Token.attributeIndex Phrase.attributeIndex fun _ => True := attributeIndex_predicts trivial
    have failed : (Token.comparator d).verdict = .noMatch := by
      have away : ∀ ch ∈ afterAttribute, ¬ comparatorStart ch := by decide
      exact comparator_fails d fun ch member => away ch (ends ch member)
    rw [comparison, bind_of_matched (index.reads passes ⟨text, rfl, meant⟩ fun _ _ => trivial)]
    exact congrArg Step.verdict (bind_of_noMatch failed)
  · obtain rfl := Cursor.passes_nil_iff.mp passes
    refine comparison_fails d ?_
    rw [mark]
    rintro _ ⟨⟩
    decide

theorem attributeIndex_not_invalid {c d : Cursor} {error : SyntaxError} :
    (Token.attributeIndex c).verdict ≠ .invalid error d := by
  intro invalid
  cases cut : Lexeme.attributeIndex c.skipBlanks.rest with
  | none =>
    rw [Token.attributeIndex, lexeme_of_none cut] at invalid
    cases invalid
  | some pair =>
    rw [Token.attributeIndex, lexeme_of_cut cut] at invalid
    dsimp only at invalid
    split at invalid <;> cases invalid

theorem alphanum_of_digits {ds : List Char} (digits : Lexeme.Digits ds) : ∀ c ∈ ds, c.isAlphanum = true := by
  intro c member
  simp [Char.isAlphanum, digits c member]

theorem identifier_of_attributeIndex {text : List Char} (form : Lexeme.IsAttributeIndex text) : Lexeme.IsIdentifier text := by
  cases form with
  | mk digits _ => exact .mk (by decide) (alphanum_of_digits digits)

theorem alphanum_of_identifier {text : List Char} (form : Lexeme.IsIdentifier text) : ∀ c ∈ text, c.isAlphanum = true := by
  cases form with
  | mk letter rest =>
    rintro c (_ | ⟨_, member⟩)
    · exact isAlphanum_of_alpha letter
    · exact rest c member

theorem isBlank_of_alphanum {c : Char} (h : c.isAlphanum = true) : isBlank c = false := by
  rcases Bool.or_eq_true_iff.mp h with alpha | digit
  · exact isBlank_of_alpha alpha
  · exact isBlank_of_digit digit

theorem within_name {piece rest name after : List Char} (alphanum : ∀ c ∈ piece, c.isAlphanum = true)
    (ends : ∀ c ∈ after.head?, c.isAlphanum = false) (h : name ++ after = piece ++ rest) :
    ∃ q, name = piece ++ q ∧ rest = q ++ after := by
  rcases List.append_eq_append_iff.mp h with ⟨extra, rfl, rfl⟩ | ⟨q, rfl, rfl⟩
  · cases extra with
    | nil => exact ⟨[], by simp, rfl⟩
    | cons ch extra =>
      have stops := ends ch (by simp)
      rw [alphanum ch (by simp)] at stops
      cases stops
  · exact ⟨q, rfl, rfl⟩

/-- Where an attribute begins a name, no comparator stands behind it but behind the name. -/
theorem comparator_behind_name {c m e : Cursor} {text : List Char} {i : AttributeIndex}
    (name : c.Passes [⟨.token .identifier, text⟩] m) (form : Lexeme.IsIdentifier text)
    (read : (Token.attributeIndex c).verdict = .matched i e) (next : ∀ ch ∈ lead m.rest, ¬ comparatorStart ch) :
    (Token.comparator e).verdict = .noMatch ∧ e.skipBlanks.offset ≤ m.skipBlanks.offset := by
  obtain ⟨-, length, piece, same, ⟨index, -⟩, -⟩ := attributeIndex_takes.matched read
  obtain ⟨first, more, begins, visible, -⟩ := identifier_cuts.begins form
  obtain ⟨cut, full⟩ := name.single begins visible
  have alphanum := alphanum_of_identifier (identifier_of_attributeIndex index)
  obtain ⟨q, rfl, rest⟩ := within_name alphanum full (cut.symm.trans same)
  have total := length.trans name.1.symm
  cases q with
  | nil =>
    obtain rfl := Cursor.ext_of_rest rest total
    exact ⟨comparator_fails e next, Nat.le_refl _⟩
  | cons ch q =>
    have inside := alphanum_of_identifier form ch (by simp)
    have shown := isBlank_of_alphanum inside
    refine ⟨comparator_fails e ?_, ?_⟩
    · rw [rest, List.cons_append, lead_cons_of_visible shown]
      rintro _ ⟨⟩ start
      have away : ∀ op ∈ ['=', '!', '<', '>'], op.isAlphanum = false := by decide
      rw [away ch start] at inside
      cases inside
    · have here : e.skipBlanks.rest = e.rest := by
        rw [Cursor.rest_skipBlanks, rest, List.cons_append, List.dropWhile_cons_of_neg (by simp [shown])]
      have skipped := e.textLength_skipBlanks
      have further := m.offset_le_skipBlanks
      simp only [Cursor.textLength, here, rest, utf8Length_append] at skipped total
      omega

/-- A name with a bracket behind it, or the mark, begins no comparison, though an attribute may begin the name. -/
theorem comparison_yields_call {c d : Cursor} {ts : List Terminal} (passes : c.Passes ts d)
    (ahead : Phrase.call.Ahead (· ∈ afterAttribute) ts d) : (comparison c).verdict = .noMatch := by
  rcases ahead.of_bind passes with ⟨e, viable, mark⟩ | ⟨_, us, name, m, ⟨text, rfl, meant⟩, left, right, ahead⟩
  · obtain ⟨rfl, -⟩ := viable.of_terminal
    obtain rfl := Cursor.passes_nil_iff.mp passes
    refine comparison_fails d ?_
    rw [mark]
    rintro _ ⟨⟩
    decide
  · have opening : (Phrase.symbol "(").Opens (· = '(') := symbol_opens (by decide) rfl
    have next := ahead.lead_of_solid (solid_bind_left solid_terminal) (opening.bind_solid solid_terminal) right
    have bracket : ∀ ch ∈ lead m.rest, ¬ comparatorStart ch := by
      intro ch member
      rcases next ch member with rfl | rfl <;> decide
    cases read : (Token.attributeIndex c).verdict with
    | noMatch => rw [comparison, bind_of_noMatch read]
    | invalid error e => exact absurd read attributeIndex_not_invalid
    | matched i e =>
      have failed := (comparator_behind_name left meant.1 read bracket).1
      rw [comparison, bind_of_matched read]
      exact congrArg Step.verdict (bind_of_noMatch failed)

/-- An attribute without a bracket behind it is no call. -/
theorem call_yields {c d : Cursor} {ts : List Terminal} (passes : c.Passes ts d)
    (ahead : Phrase.attributeIndex.Ahead (· ∈ afterAttribute) ts d) : (call c).verdict = .noMatch := by
  rcases ahead.of_terminal with ⟨text, n, rfl, meant, ends⟩ | ⟨rfl, mark⟩
  · obtain ⟨first, more, begins, visible, -⟩ := attributeIndex_takes.begins meant
    obtain ⟨cut, -⟩ := passes.single begins visible
    have full : Terminal.Closed ⟨.token .identifier, text⟩ d.rest := by
      refine ⟨fun ch member => ?_, by simp⟩
      cases alphanum : ch.isAlphanum with
      | false => rfl
      | true =>
        have away : ∀ ch ∈ afterAttribute, ch.isAlphanum = false := by decide
        rw [away ch (ends ch (lead_of_head (isBlank_of_alphanum alphanum) member))] at alphanum
        cases alphanum
    obtain ⟨e, matched, rest⟩ := identifier_takes.reads ⟨identifier_of_attributeIndex meant.1, rfl⟩ cut full
    have failed : (Token.symbol "(" e).verdict = .noMatch := by
      have fails : (Token.symbol "(").Fails (· = '(') := symbol_fails (by decide) rfl
      refine fails e ?_
      rw [rest]
      rintro _ member rfl
      exact absurd (ends '(' member) (by decide)
    rw [call, bind_of_matched matched]
    exact congrArg Step.verdict (bind_of_noMatch failed)
  · obtain rfl := Cursor.passes_nil_iff.mp passes
    refine call_fails d ?_
    rw [mark]
    rintro _ ⟨⟩
    decide

theorem attributeItem_solid : Phrase.attributeItem.Solid := by
  have condition_solid : Phrase.condition.Solid := solid_map (solid_list (solid_map (solid_list (solid_map comparison_solid))))
  exact solid_either (solid_map condition_solid) (solid_either (solid_map (solid_bind_left solid_terminal))
    (solid_either (solid_map solid_terminal) (solid_map dimension_solid)))

theorem attributeItem_predicts : Predicts attributeItem Phrase.attributeItem (· ∈ afterAttribute) := by
  have mark : '#' ∈ afterAttribute := by decide
  have away : ∀ ch ∈ afterAttribute, ch ∉ continuing := by decide
  have letter : ∀ ch, dimensionStart ch ∨ ch = '#' → ch ≠ 'a' := by
    rintro ch start rfl
    exact not_alpha_of_dimensionStart 'a' start (by decide)
  have solid : (.dimension <$> Phrase.dimension : Phrase Attribute).Solid := solid_map dimension_solid
  have dimension := dimension_predicts.weaken mark (by decide : ∀ ch ∈ afterAttribute, ch ∈ afterDimension)
  refine ((condition_predicts.weaken mark away).map _).orElse ((call_predicts.map _).orElse
    (((attributeIndex_predicts mark).map _).orElse (dimension.map _) ?_) ?_) ?_
  · intro c d ts passes ahead
    exact attributeIndex_fails.map.of_ahead ahead passes solid dimension_opens.map letter
  · intro c d ts passes ahead
    rcases ahead.of_either with ahead | ahead
    · exact map_of_noMatch (call_yields passes ahead.of_map)
    · exact call_fails.map.of_ahead ahead passes solid dimension_opens.map not_alpha_of_dimensionStart
  · intro c d ts passes ahead
    rcases ahead.of_either with ahead | ahead
    · exact map_of_noMatch (condition_of_noMatch (comparison_yields_call passes ahead.of_map))
    · rcases ahead.of_either with ahead | ahead
      · exact map_of_noMatch (condition_of_noMatch (comparison_yields_index passes ahead.of_map))
      · exact condition_fails.map.of_ahead ahead passes solid dimension_opens.map letter

/-! ### Clauses -/

def afterSection : List Char := ['/', ';', '#']

theorem alternatives_predicts {rule : Rule α} {phrase : Phrase α} (h : Predicts rule phrase (· ∈ afterAttribute))
    (follows : Follows rule phrase) : Predicts (alternatives rule) (Phrase.alternatives phrase) (· ∈ afterSection) :=
  h.separated (by decide) rfl follows (by decide) (by decide) (by decide) (by decide)

theorem hyperslice_predicts : Predicts hyperslice Phrase.hyperslice (· ∈ afterAttribute) :=
  dimension_predicts.separated (by decide) rfl dimension_follows (by decide) (by decide) (by decide) (by decide)

theorem hyperslice_solid : Phrase.hyperslice.Solid := solid_list dimension_solid

theorem hyperslice_opens : Phrase.hyperslice.Opens dimensionStart := dimension_opens.list dimension_solid

theorem slash_opens : (Phrase.symbol "/").Opens (· = '/') := symbol_opens (by decide) rfl

theorem slash_fails : (Token.symbol "/").Fails (· = '/') := symbol_fails (by decide) rfl

theorem behind_slash {rule : Rule α} {phrase : Phrase α} (h : Predicts rule phrase (· ∈ afterSection)) :
    Predicts (do Token.symbol "/"; rule) (do Phrase.symbol "/"; phrase) (· ∈ afterSection) :=
  (symbol_predicts (by decide) trivial).andThen (fun _ => h) (by decide)

def afterHyperchunk : List Char := [';', '#']

theorem hyperslices_predicts : Predicts (Rule.optional (do Token.symbol "/"; alternatives hyperslice))
    (Phrase.maybe (do Phrase.symbol "/"; Phrase.alternatives Phrase.hyperslice)) (· ∈ afterHyperchunk) := by
  have section_predicts := behind_slash (alternatives_predicts hyperslice_predicts hyperslice_follows)
  exact (section_predicts.weaken (by decide) (by decide)).optional slash_fails.bind (by decide)

/-- Hyperslices are no order, though a slash comes before both. -/
theorem order_yields {c d : Cursor} {ts : List Terminal} (passes : c.Passes ts d)
    (ahead : (Phrase.maybe (do Phrase.symbol "/"; Phrase.alternatives Phrase.hyperslice)).Ahead (· ∈ afterHyperchunk) ts d) :
    ((do Token.symbol "/"; Token.symbol "order:"; call : Rule Call) c).verdict = .noMatch := by
  have away : ∀ ch ∈ afterHyperchunk, ch ≠ '/' := by decide
  rcases ahead.of_either with ahead | ahead
  · rcases ahead.of_map.of_bind passes with ⟨e, viable, mark⟩ | ⟨first, us, _, m, head, left, right, ahead⟩
    · obtain ⟨rfl, -⟩ := viable.of_terminal
      obtain rfl := Cursor.passes_nil_iff.mp passes
      refine slash_fails.bind d ?_
      rw [mark]
      rintro _ ⟨⟩
      decide
    · have slash : Predicts (Token.symbol "/") (Phrase.symbol "/") fun _ => True := symbol_predicts (by decide) trivial
      have order_fails : (Token.symbol "order:").Fails (· = 'o') := symbol_fails (by decide) rfl
      have next := ahead.lead_of_solid (solid_list (solid_list dimension_solid)) (hyperslice_opens.list (solid_list dimension_solid)) right
      have failed : ((do Token.symbol "order:"; call : Rule Call) m).verdict = .noMatch := by
        refine order_fails.bind m fun ch member start => ?_
        exact not_alpha_of_dimensionStart ch (next ch member) (by rw [start]; decide)
      rw [bind_of_matched (slash.reads left head fun _ _ => trivial)]
      exact failed
  · obtain ⟨rfl, ends⟩ := ahead.of_pure
    obtain rfl := Cursor.passes_nil_iff.mp passes
    exact slash_fails.bind d fun ch member => away ch (ends ch member)

theorem order_predicts : Predicts (do Token.symbol "/"; Token.symbol "order:"; call)
    (do Phrase.symbol "/"; Phrase.symbol "order:"; Phrase.call) (· ∈ afterSection) := by
  refine behind_slash ((symbol_predicts (by decide) trivial).andThen (fun _ => ?_) (by decide))
  exact call_predicts.weaken (by decide) (by decide)

theorem sections_opens (arrays : List Dimension) (attributes : Option (List Attribute)) :
    (sections arrays attributes).Opens (· = '/') := by
  cases attributes with
  | none => exact .pure
  | some attributes =>
    exact (slash_opens.bind_solid solid_terminal).maybe.bind fun _ => (slash_opens.bind_solid solid_terminal).maybe.map

theorem hyperchunk_predicts : Predicts hyperchunk Phrase.hyperchunk (· ∈ afterHyperchunk) := by
  have mark : '#' ∈ afterHyperchunk := by decide
  have meets : ∀ ch, ch = '/' ∨ ch ∈ afterHyperchunk → ch ∈ afterSection := by
    have sub : ∀ ch ∈ afterHyperchunk, ch ∈ afterSection := by decide
    rintro ch (rfl | member)
    · decide
    · exact sub ch member
  have arrays := alternatives_predicts (dimension_predicts.weaken (by decide) (by decide)) dimension_follows
  have attributes := behind_slash (alternatives_predicts attributeItem_predicts attributeItem_follows)
  refine arrays.bind (fun arrays => ?_) (fun arrays => (slash_opens.bind_solid solid_terminal).maybe.bind (sections_opens arrays))
    mark meets
  refine .bind_of_reads ?_ attributes.optional_attempts mark fun attributes => ?_
  · intro c m d first more read left head right ahead
    refine attributes.optional_reads left head ?_ ?_
    · exact fun ch member => meets ch (ahead.lead (sections_opens arrays read) right mark ch member)
    · rintro rfl
      obtain ⟨rfl, ends⟩ := ahead.of_pure
      obtain rfl := Cursor.passes_nil_iff.mp right
      have away : ∀ ch ∈ afterHyperchunk, ch ≠ '/' := by decide
      exact slash_fails.bind d fun ch member => away ch (ends ch member)
  · cases attributes with
    | none => exact .pure mark
    | some attributes =>
      refine .bind_of_reads ?_ order_predicts.optional_attempts mark fun order => hyperslices_predicts.map _
      intro c m d first more read left head right ahead
      replace ahead := Ahead.of_map ahead
      refine order_predicts.optional_reads left head ?_ fun _ => order_yields right ahead
      exact fun ch member => meets ch (ahead.lead (slash_opens.bind_solid solid_terminal).maybe right mark ch member)

theorem hyperchunk_solid : Phrase.hyperchunk.Solid := solid_bind_left (solid_list dimension_solid)

theorem selector_predicts : Predicts selector Phrase.selector (· = '#') :=
  hyperchunk_predicts.separated (by decide) rfl hyperchunk_follows rfl (by decide) (by rintro ch rfl; decide) (by decide)

end ChunkSelector.Grammar
