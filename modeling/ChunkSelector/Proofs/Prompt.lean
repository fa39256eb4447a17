import ChunkSelector.Proofs.Clauses
import ChunkSelector.Proofs.Retry

/-!
# Reading stops at an invalid literal

Where a literal is found invalid, no attempt was made behind it (`Grammar.selector_prompt`). The first
side of a choice gets no further than the literals of the second side, and a part of a sequence no further
than what follows it.
-/

namespace ChunkSelector

namespace Rule

variable {α β : Type} {rule other : Rule α} {phrase p q : Phrase α} {follow starts starts' : Char → Prop} {c d : Cursor}
  {error : SyntaxError}

/-- An invalid literal stands at the cursor or further on, and nothing was tried behind it. -/
def Prompt (rule : Rule α) : Prop := ∀ c error d, (rule c).verdict = .invalid error d →
  c.skipBlanks.offset ≤ error.offset ∧ (rule c).trail.furthest ≤ error.offset

/-- A literal is found invalid only where one of certain characters comes first. -/
def Refuses (rule : Rule α) (starts : Char → Prop) : Prop :=
  ∀ c error d, (rule c).verdict = .invalid error d → ∀ ch ∈ lead c.rest, starts ch

/-- No literal is found invalid. -/
def Lenient (rule : Rule α) : Prop := ∀ c error d, (rule c).verdict ≠ .invalid error d

/-- Where there is no match, none but first terminals were tried. -/
def Shallow (rule : Rule α) : Prop := ∀ c, (rule c).verdict = .noMatch → (rule c).trail.furthest ≤ c.skipBlanks.offset

/-- Where none of the first characters of a phrase stands, none but its first terminals are tried. -/
theorem Follows.furthest_le_of_lead (h : Follows rule phrase) (opens : phrase.Opens starts)
    (away : ∀ ch ∈ lead c.rest, ¬ starts ch) : (rule c).trail.furthest ≤ c.skipBlanks.offset := by
  cases expected : (rule c).trail.expected with
  | nil =>
    rw [(h.made c).furthest_eq_zero expected]
    exact Nat.zero_le _
  | cons e more =>
    obtain ⟨ts, m, passes, offset, t, us, v, -, read⟩ := (h.made c).of_mem (by rw [expected]; exact List.mem_cons_self)
    rcases opens.lead passes read with ⟨-, rfl⟩ | ⟨ch, shown, start⟩
    · exact Nat.le_of_eq offset.symm
    · exact absurd start (away ch shown)

theorem Follows.offset_le_of_invalid (h : Follows rule phrase) (invalid : (rule c).verdict = .invalid error d) :
    c.offset ≤ error.offset := by
  obtain ⟨e, m, ⟨ts, passes, -⟩, fault⟩ := h.faulty invalid
  rw [fault.offset]
  exact Nat.le_trans passes.offset_le m.offset_le_skipBlanks

/-! ### Where no literal is found invalid -/

theorem lenient_pure {v : α} : (pure v : Rule α).Lenient := by
  rintro c error d ⟨⟩

theorem Lenient.prompt (h : rule.Lenient) : rule.Prompt := fun c error d invalid => absurd invalid (h c error d)

theorem Lenient.refuses (h : rule.Lenient) : rule.Refuses starts := fun c error d invalid => absurd invalid (h c error d)

theorem Lenient.bind {next : α → Rule β} (h : rule.Lenient) (rest : ∀ a, (next a).Lenient) : (rule >>= next).Lenient := by
  intro c error d invalid
  rcases bind_invalid invalid with first | ⟨a, m, -, further⟩
  · exact h c error d first
  · exact rest a m error d further

theorem Lenient.map {f : α → β} (h : rule.Lenient) : (f <$> rule).Lenient := h.bind fun _ => lenient_pure

theorem invalid_of_map {f : α → β} (h : ((f <$> rule : Rule β) c).verdict = .invalid error d) :
    (rule c).verdict = .invalid error d := by
  rcases bind_invalid h with first | ⟨a, m, -, further⟩
  · exact first
  · cases further

theorem optional_of_invalid (h : (rule c).verdict = .invalid error d) : (rule.optional c).verdict = .invalid error d := by
  have mapped : ((some <$> rule : Rule (Option α)) c).verdict = .invalid error d := by
    change ((rule >>= fun a => pure (some a)) c).verdict = _
    rw [bind_of_invalid h]
  rw [optional, orElse_of_invalid mapped, mapped]

theorem invalid_of_optional (h : (rule.optional c).verdict = .invalid error d) : (rule c).verdict = .invalid error d := by
  rcases orElse_invalid h with mapped | nothing
  · exact invalid_of_map mapped
  · cases nothing

theorem Fails.noMatch_of_mem {ch : Char} (h : rule.Fails starts) (member : ch ∈ lead c.rest) (away : ¬ starts ch) :
    (rule c).verdict = .noMatch := by
  refine h c fun ch' member' => ?_
  obtain rfl := Option.mem_unique member member'
  exact away

theorem Fails.refuses (h : rule.Fails starts) : rule.Refuses starts := by
  intro c error d invalid ch member
  by_cases start : starts ch
  · exact start
  · cases (h.noMatch_of_mem member start).symm.trans invalid

theorem Refuses.weaken (h : rule.Refuses starts) (sub : ∀ ch, starts ch → starts' ch) : rule.Refuses starts' :=
  fun c error d invalid ch member => sub ch (h c error d invalid ch member)

theorem Refuses.map {f : α → β} (h : rule.Refuses starts) : (f <$> rule).Refuses starts :=
  fun c error d invalid => h c error d (invalid_of_map invalid)

theorem Refuses.orElse (left : rule.Refuses starts) (right : other.Refuses starts) : (rule <|> other).Refuses starts :=
  fun c error d invalid => (orElse_invalid invalid).elim (left c error d) (right c error d)

/-- Where an optional part is passed over, what comes next is read at the same place. -/
theorem Fails.refuses_optional_bind {next : Option α → Rule β} (fails : rule.Fails starts) (h : (next none).Refuses starts) :
    (rule.optional >>= next).Refuses starts := by
  intro c error d invalid ch member
  by_cases start : starts ch
  · exact start
  · rw [bind_of_matched (optional_of_noMatch (fails.noMatch_of_mem member start))] at invalid
    exact h c error d invalid ch member

theorem Fails.refuses_many (fails : rule.Fails starts) : rule.many.Refuses starts := by
  intro c error d invalid ch member
  by_cases start : starts ch
  · exact start
  · rw [many_of_noMatch (fails.noMatch_of_mem member start)] at invalid
    cases invalid

/-! ### What was tried in front of an invalid literal -/

theorem Takes.prompt {kind : Expected} {means : List Char → α → Prop} (takes : rule.Takes kind means starts) : rule.Prompt := by
  intro c error d invalid
  obtain ⟨trail, fault⟩ := takes.invalid invalid
  rw [trail, fault.offset]
  exact ⟨Nat.le_refl _, Nat.zero_le _⟩

theorem Takes.shallow {kind : Expected} {means : List Char → α → Prop} (takes : rule.Takes kind means starts) : rule.Shallow :=
  fun _ failed => Nat.le_of_eq (takes.noMatch failed).1

theorem Shallow.map {f : α → β} (h : rule.Shallow) : (f <$> rule).Shallow := by
  intro c failed
  rw [map_trail]
  exact h c (noMatch_of_map failed)

theorem Shallow.orElse (left : rule.Shallow) (right : other.Shallow) : (rule <|> other).Shallow := by
  intro c failed
  cases verdict : (rule c).verdict with
  | matched v d =>
    rw [orElse_of_matched verdict, verdict] at failed
    cases failed
  | invalid error d =>
    rw [orElse_of_invalid verdict, verdict] at failed
    cases failed
  | noMatch =>
    rw [orElse_of_noMatch verdict] at failed ⊢
    exact Nat.max_le.mpr ⟨left c verdict, right c failed⟩

/-- A sequence, if the first part has tried nothing behind the literals of the further one. -/
theorem Prompt.bind_of_le {next : α → Rule β} (first : rule.Prompt) (follows : Follows rule phrase) (rest : ∀ a, (next a).Prompt)
    (within : ∀ c v m error d, (rule c).verdict = .matched v m → (next v m).verdict = .invalid error d →
      (rule c).trail.furthest ≤ error.offset) : (rule >>= next).Prompt := by
  intro c error d invalid
  rcases bind_invalid invalid with here | ⟨v, m, matched, further⟩
  · rw [bind_of_invalid here]
    exact first c error d here
  · rw [bind_of_matched matched]
    obtain ⟨ts, passes, -⟩ := follows.sound matched
    obtain ⟨ahead, behind⟩ := rest v m error d further
    exact ⟨Nat.le_trans passes.skipBlanks_le ahead, Nat.max_le.mpr ⟨within c v m error d matched further, behind⟩⟩

theorem Prompt.bind {next : α → Rule β} (first : rule.Prompt) (follows : Follows rule phrase) (predicts : Predicts rule phrase follow)
    (rest : ∀ a, (next a).Prompt) (refuses : ∀ a, (next a).Refuses follow) : (rule >>= next).Prompt := by
  refine first.bind_of_le follows rest fun c v m error d matched invalid => ?_
  exact Nat.le_trans (predicts.furthest_le follows matched (refuses v m error d invalid)) (rest v m error d invalid).1

theorem Prompt.bind_lenient {next : α → Rule β} (first : rule.Prompt) (rest : ∀ a, (next a).Lenient) : (rule >>= next).Prompt := by
  intro c error d invalid
  rcases bind_invalid invalid with here | ⟨v, m, -, further⟩
  · rw [bind_of_invalid here]
    exact first c error d here
  · exact absurd further (rest v m error d)

/-- A token that matches has tried nothing. -/
theorem Takes.prompt_bind {kind : Expected} {means : List Char → α → Prop} {next : α → Rule β}
    (takes : rule.Takes kind means starts) (follows : Follows rule phrase) (rest : ∀ a, (next a).Prompt) :
    (rule >>= next).Prompt := by
  refine takes.prompt.bind_of_le follows rest fun c v m error d matched _ => ?_
  rw [(takes.matched matched).1]
  exact Nat.zero_le _

theorem Prompt.map {f : α → β} (h : rule.Prompt) : (f <$> rule).Prompt := h.bind_lenient fun _ => lenient_pure

theorem Prompt.orElse (left : rule.Prompt) (right : other.Prompt)
    (within : ∀ c error d, (rule c).verdict = .noMatch → (other c).verdict = .invalid error d →
      (rule c).trail.furthest ≤ error.offset) : (rule <|> other).Prompt := by
  intro c error d invalid
  cases verdict : (rule c).verdict with
  | matched v m =>
    rw [orElse_of_matched verdict, verdict] at invalid
    cases invalid
  | invalid error' m =>
    rw [orElse_of_invalid verdict] at invalid ⊢
    exact left c error d invalid
  | noMatch =>
    rw [orElse_of_noMatch verdict] at invalid ⊢
    obtain ⟨ahead, behind⟩ := right c error d invalid
    exact ⟨ahead, Nat.max_le.mpr ⟨within c error d verdict invalid, behind⟩⟩

theorem Prompt.orElse_lenient (left : rule.Prompt) (lenient : other.Lenient) : (rule <|> other).Prompt :=
  left.orElse lenient.prompt fun c error d _ invalid => absurd invalid (lenient c error d)

theorem Prompt.orElse_shallow (left : rule.Prompt) (shallow : rule.Shallow) (right : other.Prompt) : (rule <|> other).Prompt :=
  left.orElse right fun c error d failed invalid => Nat.le_trans (shallow c failed) (right c error d invalid).1

/-- A choice that the first character decides. -/
theorem Prompt.orElse_apart (left : rule.Prompt) (follows : Follows rule p) (opens : p.Opens starts) (right : other.Prompt)
    (refuses : other.Refuses starts') (apart : ∀ ch, starts' ch → ¬ starts ch) : (rule <|> other).Prompt := by
  refine left.orElse right fun c error d _ invalid => ?_
  refine Nat.le_trans (follows.furthest_le_of_lead opens fun ch member => ?_) (right c error d invalid).1
  exact apart ch (refuses c error d invalid ch member)

theorem Prompt.optional (h : rule.Prompt) : rule.optional.Prompt := h.map.orElse_lenient lenient_pure

theorem Prompt.many (h : rule.Prompt) (follows : Follows rule phrase) (solid : phrase.Solid) (predicts : Predicts rule phrase follow)
    (fails : rule.Fails starts) (meets : ∀ ch, starts ch → follow ch) : rule.many.Prompt := by
  intro c error d invalid
  have consumes := follows.consumes solid
  induction c using many_induction consumes with
  | ends c stops =>
    cases verdict : (rule c).verdict with
    | matched v m => exact absurd verdict (stops v m)
    | noMatch =>
      rw [many_of_noMatch verdict] at invalid
      cases invalid
    | invalid error' m =>
      rw [many_of_invalid verdict] at invalid ⊢
      cases invalid
      exact h c error d verdict
  | goes c v m matched ih =>
    rw [many_of_matched consumes matched] at invalid
    have further := invalid_of_map invalid
    have ends : ∀ ch ∈ lead m.rest, follow ch := fun ch member => meets ch (fails.refuses_many m error d further ch member)
    obtain ⟨ts, passes, -⟩ := follows.sound matched
    obtain ⟨ahead, behind⟩ := ih further
    rw [many_trail consumes matched]
    refine ⟨Nat.le_trans passes.skipBlanks_le ahead, Nat.max_le.mpr ⟨?_, behind⟩⟩
    exact Nat.le_trans (predicts.furthest_le follows matched ends) ahead

theorem Prompt.separated {text : String} {first : Char} (known : text ∈ Terminal.symbols)
    (begins : text.toList.head? = some first) (h : rule.Prompt) (follows : Follows rule phrase)
    (predicts : Predicts rule phrase follow) (meets : follow first) : (Rule.separated (Token.symbol text) rule).Prompt := by
  have barred : Follows (do Token.symbol text; rule : Rule α) (do Phrase.symbol text; phrase) :=
    .bind (Grammar.symbol_follows known) fun _ => follows
  have next : Predicts (do Token.symbol text; rule : Rule α) (do Phrase.symbol text; phrase) follow :=
    (Grammar.symbol_predicts known trivial).andThen (fun _ => predicts) predicts.mark
  have solid : (do Phrase.symbol text; phrase : Phrase α).Solid := Phrase.solid_bind_left Phrase.solid_terminal
  have fails : (do Token.symbol text; rule : Rule α).Fails (· = first) := (Grammar.symbol_fails known begins).bind
  have meet : ∀ ch, ch = first → follow ch := fun ch same => same ▸ meets
  have more : (Rule.many (do Token.symbol text; rule : Rule α)).Prompt :=
    ((Token.symbol_takes known).prompt_bind (Grammar.symbol_follows known) fun _ => h).many barred solid next fails meet
  rw [separated_eq]
  exact h.bind follows predicts (fun _ => more.map) fun _ => fails.refuses_many.map.weaken meet

/-! ### Up to a mark -/

section marks

variable {x : List Char} {n : Nat} {c' : Cursor}

/-- A lexeme in front of a mark does not reach up to it. -/
theorem within_mark {t : Terminal} {p after : List Char} (lexeme : t.IsLexeme) (present : p ≠ [])
    (same : p ++ ['#'] = t.text ++ after) : ∃ q, p = t.text ++ q ∧ after = q ++ ['#'] := by
  rcases lexeme.shape with ⟨body, -, string⟩ | ⟨first, more, shape, -, -, -, goes⟩
  · rcases List.eq_nil_or_concat after with rfl | ⟨q, ch, rfl⟩
    · have last := congrArg List.getLast? same
      rw [string, List.append_nil, List.getLast?_concat, List.getLast?_concat] at last
      exact absurd (Option.some.inj last) (by decide)
    · rw [List.concat_eq_append] at same ⊢
      rw [← List.append_assoc] at same
      obtain ⟨inside, mark⟩ := List.append_inj' same rfl
      exact ⟨q, inside, by rw [mark]⟩
  · exact within_of_append (by rw [shape]; exact goes) present stops_mark same

/-- A literal that is found invalid in front of a mark is found invalid there in the other text. -/
theorem Takes.locked_invalid {kind : Expected} {means : List Char → α → Prop} (takes : rule.Takes kind means starts)
    (stop : Stops x) (visible : ∀ ch ∈ x.head?, isBlank ch = false) (marks : Cursor.Marks x n c c')
    (invalid : (rule c).verdict = .invalid error d) (inside : error.offset < n) :
    ∃ error' d', (rule c').verdict = .invalid error' d' ∧ error'.offset = error.offset := by
  obtain ⟨p, rest, offset, there, -⟩ := marks.skipBlanks visible
  have fault := (takes.invalid invalid).2.offset
  have present : p ≠ [] := by
    rintro rfl
    rw [utf8Length] at offset
    omega
  have rest' : c'.skipBlanks.rest = p ++ ['#'] := by rw [there]
  cases verdict : (rule c').verdict with
  | matched v e =>
    obtain ⟨-, -, text, same, meant, closed⟩ := takes.matched verdict
    obtain ⟨q, rfl, behind⟩ := within_mark (takes.lexeme meant) present (rest'.symm.trans same)
    rw [behind] at closed
    obtain ⟨_, matched, -⟩ := takes.reads meant (by rw [rest, List.append_assoc]) (Terminal.closed_exchange closed stop)
    cases invalid.symm.trans matched
  | noMatch =>
    have border : NoSplit p ['#'] := fun _ _ b member _ => by
      obtain rfl : '#' = b := by simpa using member
      decide
    cases invalid.symm.trans (takes.persists rest' rest present border stop verdict)
  | invalid error' e =>
    refine ⟨error', e, rfl, ?_⟩
    rw [(takes.invalid verdict).2.offset, fault, there]

theorem Follows.locked_invalid (h : Follows rule phrase) (stop : Stops x) (visible : ∀ ch ∈ x.head?, isBlank ch = false)
    (marks : Cursor.Marks x n c c') (invalid : (rule c).verdict = .invalid error d) (trail : (rule c).trail.furthest ≤ n)
    (inside : error.offset < n) : ∃ error' d', (rule c').verdict = .invalid error' d' ∧ error'.offset = error.offset := by
  induction h generalizing c c' d with
  | terminal takes _ => exact takes.locked_invalid stop visible marks invalid inside
  | pure value => cases invalid
  | @bind α β rule p next further first rest ihFirst ihRest =>
    rcases bind_invalid invalid with here | ⟨v, m, matched, behind⟩
    · rw [bind_of_invalid here] at trail
      obtain ⟨error', d', there, same⟩ := ihFirst marks here trail
      exact ⟨error', d', by rw [bind_of_invalid there], same⟩
    · rw [bind_of_matched matched] at trail
      obtain ⟨front, back⟩ := Nat.max_le.mp trail
      have start := (rest v).offset_le_of_invalid behind
      obtain ⟨m', there, marks', -⟩ := (first.locked visible marks (.of_matched matched front (by omega))).of_matched matched
      obtain ⟨error', d', invalid', same⟩ := ihRest v marks' behind back
      exact ⟨error', d', by rw [bind_of_matched there]; exact invalid', same⟩
  | @orElse α rule other p q left right ihLeft ihRight =>
    cases verdict : (rule c).verdict with
    | matched v m =>
      rw [orElse_of_matched verdict, verdict] at invalid
      cases invalid
    | invalid error' m =>
      rw [orElse_of_invalid verdict] at invalid trail
      obtain ⟨error', d', there, same⟩ := ihLeft marks invalid trail
      exact ⟨error', d', by rw [orElse_of_invalid there, there], same⟩
    | noMatch =>
      rw [orElse_of_noMatch verdict] at invalid trail
      obtain ⟨front, back⟩ := Nat.max_le.mp trail
      obtain ⟨there, -⟩ := (left.locked visible marks (.of_noMatch verdict front)).of_noMatch verdict
      obtain ⟨error', d', invalid', same⟩ := ihRight marks invalid back
      exact ⟨error', d', by rw [orElse_of_noMatch there]; exact invalid', same⟩
  | @many α item p follows solid ih =>
    have consumes := follows.consumes solid
    induction c using many_induction consumes generalizing c' with
    | ends c stops =>
      rw [many_trail_of_not_matched stops] at trail
      cases verdict : (item c).verdict with
      | matched v m => exact absurd verdict (stops v m)
      | noMatch =>
        rw [many_of_noMatch verdict] at invalid
        cases invalid
      | invalid error' m =>
        rw [many_of_invalid verdict] at invalid
        cases invalid
        obtain ⟨error', d', there, same⟩ := ih marks verdict trail
        exact ⟨error', d', by rw [many_of_invalid there], same⟩
    | goes c v m matched ihRest =>
      rw [many_of_matched consumes matched] at invalid
      rw [many_trail consumes matched] at trail
      have behind := invalid_of_map invalid
      obtain ⟨front, back⟩ := Nat.max_le.mp trail
      have start := (follows.many solid).offset_le_of_invalid behind
      obtain ⟨m', there, marks', -⟩ := (follows.locked visible marks (.of_matched matched front (by omega))).of_matched matched
      obtain ⟨error', d', invalid', same⟩ := ihRest marks' behind back
      refine ⟨error', d', ?_, same⟩
      rw [many_of_matched consumes there]
      exact congrArg Step.verdict (bind_of_invalid invalid')

end marks

end Rule

namespace Grammar

open Rule Phrase Token

/-! ### Tokens -/

theorem lexeme_lenient {kind : Expected} {cut : List Char → Option (List Char × List Char)}
    {meaning : List Char → Cursor → Cursor → Step α}
    (meant : ∀ text start next error d, (meaning text start next).verdict ≠ .invalid error d) :
    (lexeme kind cut meaning).Lenient := by
  intro c error d invalid
  cases read : cut c.skipBlanks.rest with
  | none =>
    rw [lexeme_of_none read] at invalid
    cases invalid
  | some pair =>
    rw [lexeme_of_cut read] at invalid
    exact meant _ _ _ _ _ invalid

theorem symbol_lenient {text : String} : (Token.symbol text).Lenient := lexeme_lenient (by rintro _ _ _ _ _ ⟨⟩)

theorem identifier_lenient : Token.identifier.Lenient := lexeme_lenient (by rintro _ _ _ _ _ ⟨⟩)

theorem attributeIndex_lenient : Token.attributeIndex.Lenient := fun _ _ _ => attributeIndex_not_invalid

/-- What comes behind a symbol is read as if nothing had been tried. -/
theorem prompt_behind_symbol {text : String} {next : Unit → Rule β} (known : text ∈ Terminal.symbols)
    (rest : ∀ a, (next a).Prompt) : (Token.symbol text >>= next).Prompt :=
  (symbol_takes known).prompt_bind (symbol_follows known) rest

/-! ### Dimensions -/

theorem slice_prompt : slice.Prompt := by
  have away : ∀ ch, ch = ':' → ¬ integerStart ch := by
    rintro _ rfl
    decide
  have integer : (Rule.optional Token.integer).Prompt := integer_takes.prompt.optional
  have bound : Predicts (Rule.optional Token.integer) Phrase.integer.maybe (¬ integerStart ·) :=
    optional_integer_predicts (by decide) fun _ => id
  have colon : Follows (Token.symbol ":") (Phrase.symbol ":") := symbol_follows (by decide)
  have second : Predicts (Rule.optional (Token.symbol ":")) (Phrase.symbol ":").maybe (· ≠ ':') :=
    (symbol_predicts (by decide) (by decide)).optional colon_fails fun _ => id
  refine integer.bind integer_follows.optional bound (fun start => ?_) fun start =>
    colon_fails.bind.refuses.weaken away
  refine prompt_behind_symbol (by decide) fun _ => integer.bind integer_follows.optional bound (fun stop => ?_) fun stop => ?_
  · refine symbol_lenient.prompt.optional.bind colon.optional second (fun step => ?_) fun step => ?_
    · cases step with
      | none => exact lenient_pure.prompt
      | some _ => exact integer.map
    · cases step with
      | none => exact lenient_pure.refuses
      | some _ =>
        refine .weaken (?_ : Refuses _ integerStart) ?_
        · exact integer_fails.refuses_optional_bind lenient_pure.refuses
        · rintro ch start rfl
          exact away ':' rfl start
  · refine .weaken (?_ : Refuses _ (· = ':')) away
    exact colon_fails.refuses_optional_bind lenient_pure.refuses

/-- An integer that is invalid as an index is invalid as the start of a slice. -/
theorem slice_of_invalid {c d : Cursor} {error : SyntaxError} (invalid : (Token.integer c).verdict = .invalid error d) :
    (slice c).verdict = .invalid error d := by
  rw [slice, bind_of_invalid (optional_of_invalid invalid)]

theorem dimension_prompt : dimension.Prompt := by
  have ellipsis : (do Token.symbol "..."; return Dimension.ellipsis : Rule Dimension).Lenient :=
    symbol_lenient.bind fun _ => lenient_pure
  have ellipsis_follows : Follows (do Token.symbol "..."; return Dimension.ellipsis) (do Phrase.symbol "..."; return Dimension.ellipsis) :=
    .bind (symbol_follows (by decide)) fun _ => .pure _
  refine slice_prompt.map.orElse (ellipsis.prompt.orElse_apart ellipsis_follows ellipsis_opens integer_takes.prompt.map
    integer_fails.refuses.map ?_) fun c error d failed invalid => ?_
  · rintro _ start rfl
    exact absurd start (by decide)
  · rcases orElse_invalid invalid with dots | index
    · exact absurd dots (ellipsis c error d)
    · cases (noMatch_of_map failed).symm.trans (slice_of_invalid (invalid_of_map index))

theorem number_prompt : Token.number.Prompt := float_takes.prompt.map.orElse_shallow float_takes.shallow.map integer_takes.prompt.map

theorem number_shallow : Token.number.Shallow := float_takes.shallow.map.orElse integer_takes.shallow.map

theorem literal_prompt : literal.Prompt := number_prompt.map.orElse_shallow number_shallow.map string_takes.prompt.map

theorem comparison_prompt : comparison.Prompt := by
  refine attributeIndex_takes.prompt_bind attributeIndex_follows fun _ => ?_
  exact comparator_takes.prompt_bind comparator_follows fun _ => literal_prompt.map

theorem condition_prompt : condition.Prompt := by
  have conjunction : (chain .and (.comparison <$> comparison)).Prompt :=
    (comparison_prompt.map.separated (by decide) rfl (comparison_follows.map _) (comparison_predicts.map _) (by decide)).map
  exact (conjunction.separated (by decide) rfl (chain_follows .and (comparison_follows.map _)) conjunction_predicts (by decide)).map

theorem argument_prompt : argument.Prompt := by
  refine attributeIndex_takes.prompt.map.orElse_shallow attributeIndex_takes.shallow.map ?_
  exact string_takes.prompt.map.orElse_shallow string_takes.shallow.map number_prompt.map

/-- What a call has behind its name. -/
theorem arguments_prompt (name : String) : (do
      Token.symbol "("
      let arguments ← Rule.optional (Rule.separated (Token.symbol ",") argument)
      Token.symbol ")"
      return (⟨name, arguments.getD []⟩ : Call)).Prompt := by
  have arguments : (Rule.separated (Token.symbol ",") argument).Prompt :=
    argument_prompt.separated (by decide) rfl argument_follows argument_predicts (by decide)
  refine prompt_behind_symbol (by decide) fun _ => ?_
  exact arguments.optional.bind_lenient fun _ => symbol_lenient.bind fun _ => lenient_pure

theorem call_prompt : call.Prompt := identifier_takes.prompt_bind identifier_follows arguments_prompt

/-! ### Attributes -/

/-- Where a call has an invalid argument, a comparison has got no further than its name. -/
theorem comparison_within_call {c d : Cursor} {error : SyntaxError} (invalid : (call c).verdict = .invalid error d) :
    (comparison c).trail.furthest ≤ error.offset := by
  rcases bind_invalid invalid with name | ⟨name, m, matched, further⟩
  · exact absurd name (identifier_lenient c error d)
  refine Nat.le_trans ?_ (arguments_prompt name m error d further).1
  obtain ⟨_, passes, text, rfl, form, -⟩ := identifier_follows.sound matched
  have bracket : ∀ ch ∈ lead m.rest, ¬ comparatorStart ch := by
    have opening : (Token.symbol "(").Fails (· = '(') := symbol_fails (by decide) rfl
    intro ch member start
    obtain rfl := opening.bind.refuses m error d further ch member
    exact absurd start (by decide)
  cases read : (Token.attributeIndex c).verdict with
  | noMatch =>
    rw [comparison, bind_of_noMatch read]
    exact Nat.le_trans (attributeIndex_takes.shallow c read) passes.skipBlanks_le
  | invalid error e => exact absurd read attributeIndex_not_invalid
  | matched i e =>
    obtain ⟨stops, within⟩ := comparator_behind_name passes form read bracket
    rw [comparison, bind_of_matched read, bind_of_noMatch stops, Step.after, (attributeIndex_takes.matched read).1, Trail.empty_append]
    exact Nat.le_trans (comparator_takes.shallow e stops) within

theorem attributeItem_prompt : attributeItem.Prompt := by
  have call_opens : Phrase.call.Opens (·.isAlpha = true) := (Opens.terminal identifier_takes).bind_solid solid_terminal
  have comparison_opens : Phrase.comparison.Opens (· = 'a') := (Opens.terminal attributeIndex_takes).bind_solid solid_terminal
  have plain : ((.index <$> Token.attributeIndex) <|> (.dimension <$> dimension) : Rule Attribute).Prompt :=
    attributeIndex_takes.prompt.map.orElse_shallow attributeIndex_takes.shallow.map dimension_prompt.map
  have refuses : ((.index <$> Token.attributeIndex) <|> (.dimension <$> dimension) : Rule Attribute).Refuses dimensionStart :=
    .orElse attributeIndex_lenient.map.refuses dimension_fails.refuses.map
  have letter : ∀ ch, dimensionStart ch → ¬ ch.isAlpha = true := fun ch start => not_alpha_of_dimensionStart ch (.inl start)
  have others := call_prompt.map.orElse_apart (call_follows.map Attribute.call) call_opens.map plain refuses letter
  refine condition_prompt.map.orElse others fun c error d failed invalid => ?_
  rw [map_trail, condition_trail (noMatch_of_map failed)]
  rcases orElse_invalid invalid with named | unnamed
  · exact comparison_within_call (invalid_of_map named)
  · refine Nat.le_trans (comparison_follows.furthest_le_of_lead comparison_opens fun ch member same => ?_) (plain c error d unnamed).1
    exact letter ch (refuses c error d unnamed ch member) (by rw [same]; decide)

/-! ### Clauses -/

theorem alternatives_prompt {rule : Rule α} {phrase : Phrase α} (h : rule.Prompt) (follows : Follows rule phrase)
    (predicts : Predicts rule phrase (· ∈ afterAttribute)) : (alternatives rule).Prompt :=
  h.separated (by decide) rfl follows predicts (by decide)

theorem hyperslices_prompt : (alternatives hyperslice).Prompt :=
  alternatives_prompt (dimension_prompt.separated (by decide) rfl dimension_follows dimension_predicts (by decide))
    hyperslice_follows hyperslice_predicts

/-- Where a hyperslice has an invalid bound, an order has got no further than its slash. -/
theorem order_within_hyperslices {c d : Cursor} {error : SyntaxError}
    (invalid : ((do Token.symbol "/"; alternatives hyperslice) c).verdict = .invalid error d) :
    ((do Token.symbol "/"; Token.symbol "order:"; call : Rule Call) c).trail.furthest ≤ error.offset := by
  rcases bind_invalid invalid with slash | ⟨_, m, matched, further⟩
  · exact absurd slash (symbol_lenient c error d)
  have takes := symbol_takes (by decide : "/" ∈ Terminal.symbols)
  have refuses : (alternatives hyperslice).Refuses dimensionStart := dimension_fails.separated.separated.refuses
  have order_follows : Follows (do Token.symbol "order:"; call) (do Phrase.symbol "order:"; Phrase.call) :=
    .bind (symbol_follows (by decide)) fun _ => call_follows
  have order_opens : (do Phrase.symbol "order:"; Phrase.call).Opens (· = 'o') := (symbol_opens (by decide) rfl).bind_solid solid_terminal
  rw [bind_of_matched matched, Step.after, (takes.matched matched).1, Trail.empty_append]
  refine Nat.le_trans (order_follows.furthest_le_of_lead order_opens fun ch member same => ?_) (hyperslices_prompt m error d further).1
  exact not_alpha_of_dimensionStart ch (.inl (refuses m error d further ch member)) (by rw [same]; decide)

theorem slash_meets : ∀ ch, ch = '/' → ch ∈ afterSection := by
  simp [afterSection]

/-- What a clause has behind its attributes. -/
theorem sections_prompt (arrays : List Dimension) (attributes : List Attribute) : (do
      let order ← Rule.optional (do Token.symbol "/"; Token.symbol "order:"; call)
      let hyperslices ← Rule.optional (do Token.symbol "/"; alternatives hyperslice)
      return (⟨arrays, some attributes, order, hyperslices⟩ : Hyperchunk)).Prompt := by
  have order : (do Token.symbol "/"; Token.symbol "order:"; call : Rule Call).Prompt :=
    prompt_behind_symbol (by decide) fun _ => prompt_behind_symbol (by decide) fun _ => call_prompt
  have order_follows : Follows (do Token.symbol "/"; Token.symbol "order:"; call)
      (do Phrase.symbol "/"; Phrase.symbol "order:"; Phrase.call) :=
    .bind (symbol_follows (by decide)) fun _ => .bind (symbol_follows (by decide)) fun _ => call_follows
  have hyperslices : (do Token.symbol "/"; alternatives hyperslice).Prompt :=
    prompt_behind_symbol (by decide) fun _ => hyperslices_prompt
  refine order.optional.bind_of_le order_follows.optional (fun _ => hyperslices.optional.map) ?_
  intro c given m error d matched invalid
  have further := invalid_of_optional (invalid_of_map invalid)
  rw [optional_trail]
  rcases optional_matched matched with ⟨call, rfl, found⟩ | ⟨rfl, rfl⟩
  · have ends := slash_fails.bind.refuses.weaken slash_meets m error d further
    exact Nat.le_trans (order_predicts.furthest_le order_follows found ends) (hyperslices m error d further).1
  · exact order_within_hyperslices further

theorem sections_refuses (arrays : List Dimension) (attributes : List Attribute) : (do
      let order ← Rule.optional (do Token.symbol "/"; Token.symbol "order:"; call)
      let hyperslices ← Rule.optional (do Token.symbol "/"; alternatives hyperslice)
      return (⟨arrays, some attributes, order, hyperslices⟩ : Hyperchunk)).Refuses (· = '/') := by
  refine slash_fails.bind.refuses_optional_bind ?_
  exact slash_fails.bind.refuses_optional_bind lenient_pure.refuses

theorem hyperchunk_prompt : hyperchunk.Prompt := by
  have arrays := alternatives_prompt dimension_prompt dimension_follows (dimension_predicts.weaken (by decide) (by decide))
  have arrays_predicts := alternatives_predicts (dimension_predicts.weaken (by decide) (by decide)) dimension_follows
  have attributes : (do Token.symbol "/"; alternatives attributeItem).Prompt :=
    prompt_behind_symbol (by decide) fun _ => alternatives_prompt attributeItem_prompt attributeItem_follows attributeItem_predicts
  have attributes_follows : Follows (do Token.symbol "/"; alternatives attributeItem)
      (do Phrase.symbol "/"; Phrase.alternatives Phrase.attributeItem) :=
    .bind (symbol_follows (by decide)) fun _ => alternatives_follows attributeItem_follows
  have attributes_predicts := behind_slash (alternatives_predicts attributeItem_predicts attributeItem_follows)
  refine arrays.bind (alternatives_follows dimension_follows) arrays_predicts (fun arrays => ?_) fun arrays => ?_
  · refine attributes.optional.bind_of_le attributes_follows.optional (fun given => ?_) fun c given m error d matched invalid => ?_
    · cases given with
      | none => exact lenient_pure.prompt
      | some attributes => exact sections_prompt arrays attributes
    · rcases optional_matched matched with ⟨attributes, rfl, found⟩ | ⟨rfl, -⟩
      · have ends := (sections_refuses arrays attributes).weaken slash_meets m error d invalid
        rw [optional_trail]
        exact Nat.le_trans (attributes_predicts.furthest_le attributes_follows found ends)
          (sections_prompt arrays attributes m error d invalid).1
      · cases invalid
  · refine .weaken (?_ : Refuses _ (· = '/')) slash_meets
    exact slash_fails.bind.refuses_optional_bind lenient_pure.refuses

theorem selector_prompt : selector.Prompt :=
  hyperchunk_prompt.separated (by decide) rfl hyperchunk_follows hyperchunk_predicts (by decide)

end Grammar

end ChunkSelector
