import ChunkSelector.Proofs.Overlong
import ChunkSelector.Proofs.Reach
import ChunkSelector.Proofs.Vocabulary

/-!
# The order of overlong tokens

Overlong tokens are tried from left to right (`selector_orderly`), with one exception. The name of a call
is read once more as an attribute where the call has failed, and that comes after its arguments.
-/

namespace ChunkSelector

namespace Overlong

/-- A call that begins with the name may have an attribute where the token stands. -/
def Calls (text : List Char) (name token : Overlong) : Prop :=
  ∃ c : Cursor, c.In text ∧ name.StandsAt c.skipBlanks ∧ Phrase.call.Declines c token

/-- The second token does not begin in front of the first, unless it is the name of a call around it. -/
def Precedes (text : List Char) (first second : Overlong) : Prop := first.start ≤ second.start ∨ second.Calls text first

end Overlong

namespace Phrase

variable {α : Type} {p : Phrase α} {c d : Cursor} {token : Overlong} {starts : Char → Prop}

theorem Declines.start_le (h : p.Declines c token) : c.skipBlanks.offset ≤ token.start := by
  obtain ⟨m, ⟨ts, passes, -⟩, stands⟩ := h
  rw [stands.start]
  exact passes.skipBlanks_le

theorem begins_of_kind {t : Terminal} (lexeme : t.IsLexeme) (kind : t.kind = .token .attributeIndex) :
    ∃ digits, t.text = 'a' :: digits := by
  obtain ⟨_, text⟩ := t
  cases kind
  obtain ⟨_, _, ⟨⟩, form, -⟩ := lexeme
  exact begins_of_attributeIndex form

theorem Declines.lead {rule : Rule α} (h : p.Declines c token) (follows : Rule.Follows rule p) (opens : p.Opens starts) :
    ∃ ch, lead c.rest = some ch ∧ starts ch := by
  obtain ⟨m, ⟨ts, passes, t, more, v, kind, read⟩, stands⟩ := h
  rcases opens.lead passes read with ⟨rfl, rfl⟩ | shown
  · obtain ⟨ch, text, begins, -, start⟩ := opens t more v read
    obtain ⟨_, same⟩ := begins_of_kind (follows.lexemes read t (by simp)) kind
    obtain ⟨rfl, -⟩ := List.cons.inj (begins.symm.trans same)
    exact ⟨'a', stands.lead, start⟩
  · exact shown

/-- An attribute stands only at the beginning of the phrase. -/
def Fronts (p : Phrase α) : Prop := ∀ ts, p.Viable ts (.token .attributeIndex) → ts = []

end Phrase

namespace Rule

variable {α β : Type} {rule other : Rule α} {phrase : Phrase α} {follow : Char → Prop} {c d : Cursor} {v : α}

/-- The overlong tokens are tried in order, wherever in a text the rule begins. -/
def Orderly (rule : Rule α) : Prop :=
  ∀ text c, c.In text → (rule c).trail.overlong.Pairwise (Overlong.Precedes text)

/-- No overlong token is tried. -/
def Quiet (rule : Rule α) : Prop := ∀ c, (rule c).trail.overlong = []

theorem Follows.quiet {kinds : List Expected} (h : Follows rule phrase) (uses : phrase.Uses kinds)
    (other : .token .attributeIndex ∉ kinds) : rule.Quiet := by
  intro c
  refine List.eq_nil_iff_forall_not_mem.mpr fun token member => ?_
  obtain ⟨m, ⟨ts, -, viable⟩, -⟩ := (h.recalls c token member).2
  exact other (uses.viable viable)

theorem Quiet.orderly (h : rule.Quiet) : rule.Orderly := by
  intro text c _
  rw [h c]
  exact .nil

theorem quiet_pure {v : α} : (pure v : Rule α).Quiet := fun _ => rfl

theorem Follows.stands (h : Follows rule phrase) (fronts : phrase.Fronts) {token : Overlong}
    (member : token ∈ (rule c).trail.overlong) : token.StandsAt c.skipBlanks := by
  obtain ⟨m, ⟨ts, passes, viable⟩, stands⟩ := (h.recalls c token member).2
  obtain rfl := fronts ts viable
  obtain rfl := Cursor.passes_nil_iff.mp passes
  exact stands

theorem Follows.orderly (h : Follows rule phrase) (fronts : phrase.Fronts) : rule.Orderly := by
  intro text c _
  refine List.pairwise_of_forall_mem_list fun first here second there => .inl ?_
  exact Nat.le_of_eq ((h.stands fronts here).start.trans (h.stands fronts there).start.symm)

/-- What comes behind a match has nothing to try in front of what the match has tried. -/
theorem Predicts.start_le {next : Rule β} {further : Phrase β} {starts : Char → Prop} (predicts : Predicts rule phrase follow)
    (follows : Follows rule phrase) (matched : (rule c).verdict = .matched v d) (continues : Follows next further)
    (opens : further.Opens starts) (meets : ∀ ch, starts ch → follow ch) {first second : Overlong}
    (here : first ∈ (rule c).trail.overlong) (there : second ∈ (next d).trail.overlong) : first.start ≤ second.start := by
  have declines := (continues.recalls d second there).2
  obtain ⟨ch, shown, start⟩ := declines.lead continues opens
  have ends : ∀ ch ∈ lead d.rest, follow ch := by
    rw [shown]
    rintro _ ⟨⟩
    exact meets ch start
  have within := (follows.recalls c first here).1
  exact Nat.le_trans within (Nat.le_trans (predicts.furthest_le follows matched ends) declines.start_le)

theorem Orderly.bind {next : α → Rule β} (first : rule.Orderly) (rest : ∀ a, (next a).Orderly) (follows : Follows rule phrase)
    (apart : ∀ c v d, (rule c).verdict = .matched v d → ∀ first ∈ (rule c).trail.overlong,
      ∀ second ∈ (next v d).trail.overlong, first.start ≤ second.start) : (rule >>= next).Orderly := by
  intro text c inside
  cases verdict : (rule c).verdict with
  | noMatch =>
    rw [bind_of_noMatch verdict]
    exact first text c inside
  | invalid error d =>
    rw [bind_of_invalid verdict]
    exact first text c inside
  | matched v d =>
    rw [bind_of_matched verdict]
    obtain ⟨ts, passes, -⟩ := follows.sound verdict
    refine List.pairwise_append.mpr ⟨first text c inside, rest v text d (passes.inside inside), ?_⟩
    intro first here second there
    exact .inl (apart c v d verdict first here second there)

theorem Orderly.bind_quiet {next : α → Rule β} (h : rule.Orderly) (quiet : ∀ a, (next a).Quiet) (follows : Follows rule phrase) :
    (rule >>= next).Orderly := by
  refine h.bind (fun a => (quiet a).orderly) follows fun c v d _ _ _ second there => ?_
  rw [quiet v d] at there
  cases there

theorem Quiet.bind {next : α → Rule β} (h : rule.Quiet) (rest : ∀ a, (next a).Orderly) (follows : Follows rule phrase) :
    (rule >>= next).Orderly := by
  refine h.orderly.bind rest follows fun c v d _ first here => ?_
  rw [h c] at here
  cases here

theorem Orderly.map {f : α → β} (h : rule.Orderly) : (f <$> rule).Orderly := by
  intro text c inside
  rw [map_trail]
  exact h text c inside

theorem Quiet.map {f : α → β} (h : rule.Quiet) : (f <$> rule).Quiet := by
  intro c
  rw [map_trail]
  exact h c

theorem Orderly.orElse (left : rule.Orderly) (right : other.Orderly)
    (apart : ∀ text c, c.In text → (rule c).verdict = .noMatch → ∀ first ∈ (rule c).trail.overlong,
      ∀ second ∈ (other c).trail.overlong, first.Precedes text second) : (rule <|> other).Orderly := by
  intro text c inside
  cases verdict : (rule c).verdict with
  | matched v d =>
    rw [orElse_of_matched verdict]
    exact left text c inside
  | invalid error d =>
    rw [orElse_of_invalid verdict]
    exact left text c inside
  | noMatch =>
    rw [orElse_of_noMatch verdict]
    exact List.pairwise_append.mpr ⟨left text c inside, right text c inside, apart text c inside verdict⟩

theorem Orderly.orElse_quiet (left : rule.Orderly) (quiet : other.Quiet) : (rule <|> other).Orderly := by
  refine left.orElse quiet.orderly fun text c _ _ _ _ second there => ?_
  rw [quiet c] at there
  cases there

theorem Orderly.optional (h : rule.Orderly) : rule.optional.Orderly := h.map.orElse_quiet quiet_pure

theorem Orderly.many (h : rule.Orderly) (follows : Follows rule phrase) (solid : phrase.Solid)
    (apart : ∀ c v d, (rule c).verdict = .matched v d → ∀ first ∈ (rule c).trail.overlong,
      ∀ second ∈ (rule.many d).trail.overlong, first.start ≤ second.start) : rule.many.Orderly := by
  intro text c inside
  have consumes := follows.consumes solid
  induction c using many_induction consumes with
  | ends c stops =>
    rw [many_trail_of_not_matched stops]
    exact h text c inside
  | goes c v d matched ih =>
    rw [many_trail consumes matched]
    obtain ⟨ts, passes, -⟩ := follows.sound matched
    refine List.pairwise_append.mpr ⟨h text c inside, ih (passes.inside inside), fun first here second there => ?_⟩
    exact .inl (apart c v d matched first here second there)

theorem quiet_symbol {text : String} (known : text ∈ Terminal.symbols) : (Token.symbol text).Quiet :=
  (Grammar.symbol_follows known).quiet Phrase.uses_terminal (by simp)

/-- The items of a list are tried one behind the other. -/
theorem Orderly.separated {text : String} {first : Char} (known : text ∈ Terminal.symbols)
    (begins : text.toList.head? = some first) (h : rule.Orderly) (follows : Follows rule phrase)
    (predicts : Predicts rule phrase follow) (meets : follow first) : (Rule.separated (Token.symbol text) rule).Orderly := by
  have bar := Grammar.symbol_follows known
  have barred : Follows (do Token.symbol text; rule : Rule α) (do Phrase.symbol text; phrase) := .bind bar fun _ => follows
  have solid : (do Phrase.symbol text; phrase : Phrase α).Solid := Phrase.solid_bind_left Phrase.solid_terminal
  have more : Follows (Rule.many (do Token.symbol text; rule : Rule α)) (Phrase.many (do Phrase.symbol text; phrase : Phrase α)) := .many barred solid
  have opens : (Phrase.many (do Phrase.symbol text; phrase : Phrase α)).Opens (· = first) :=
    ((Grammar.symbol_opens known begins).bind_solid Phrase.solid_terminal).many
  have next : Predicts (do Token.symbol text; rule : Rule α) (do Phrase.symbol text; phrase) follow :=
    (Grammar.symbol_predicts known trivial).andThen (fun _ => predicts) predicts.mark
  have orderly : (Rule.many (do Token.symbol text; rule : Rule α)).Orderly := by
    refine ((quiet_symbol known).bind (fun _ => h) bar).many barred solid fun c v d matched one here another there => ?_
    exact next.start_le barred matched more opens (fun ch same => same ▸ meets) here there
  rw [separated_eq]
  refine h.bind (fun _ => orderly.map) follows fun c v d matched one here another there => ?_
  have rest : (((v :: ·) <$> Rule.many (do Token.symbol text; rule : Rule α) : Rule (List α)) d).trail =
      (Rule.many (do Token.symbol text; rule : Rule α) d).trail := map_trail _ _ d
  change another ∈ (((v :: ·) <$> Rule.many (do Token.symbol text; rule : Rule α) : Rule (List α)) d).trail.overlong at there
  rw [rest] at there
  exact predicts.start_le follows matched more opens (fun ch same => same ▸ meets) here there

theorem noMatch_of_map {f : α → β} (h : ((f <$> rule : Rule β) c).verdict = .noMatch) : (rule c).verdict = .noMatch := by
  change ((rule >>= fun a => pure (f a)) c).verdict = _ at h
  cases verdict : (rule c).verdict with
  | noMatch => rfl
  | matched v d =>
    rw [bind_of_matched verdict] at h
    cases h
  | invalid error d =>
    rw [bind_of_invalid verdict] at h
    cases h

theorem optional_trail (rule : Rule α) (c : Cursor) : (rule.optional c).trail = (rule c).trail := by
  have mapped : ((some <$> rule : Rule (Option α)) c).trail = (rule c).trail := map_trail some rule c
  rw [optional]
  cases verdict : ((some <$> rule : Rule (Option α)) c).verdict with
  | matched v d => rw [orElse_of_matched verdict, mapped]
  | invalid error d => rw [orElse_of_invalid verdict, mapped]
  | noMatch =>
    rw [orElse_of_noMatch verdict, Step.after, mapped]
    exact Trail.append_empty _

theorem optional_matched {given : Option α} (h : (rule.optional c).verdict = .matched given d) :
    (∃ v, given = some v ∧ (rule c).verdict = .matched v d) ∨ given = none ∧ d = c := by
  rw [optional] at h
  cases verdict : ((some <$> rule : Rule (Option α)) c).verdict with
  | matched v e =>
    rw [orElse_of_matched verdict] at h
    obtain ⟨_, _, first, finish⟩ := bind_matched_iff.mp h
    cases finish
    exact .inl ⟨_, rfl, first⟩
  | noMatch =>
    rw [orElse_of_noMatch verdict] at h
    cases h
    exact .inr ⟨rfl, rfl⟩
  | invalid error e =>
    rw [orElse_of_invalid verdict] at h
    cases verdict.symm.trans h

theorem separated_noMatch {separator : Rule Unit} (h : (Rule.separated separator rule c).verdict = .noMatch) :
    (rule c).verdict = .noMatch ∧ (Rule.separated separator rule c).trail = (rule c).trail := by
  rw [separated_eq] at h ⊢
  cases verdict : (rule c).verdict with
  | noMatch =>
    rw [bind_of_noMatch verdict]
    exact ⟨rfl, rfl⟩
  | matched v d =>
    rw [bind_of_matched verdict] at h
    exact absurd (noMatch_of_map h) many_ne_noMatch
  | invalid error d =>
    rw [bind_of_invalid verdict] at h
    cases h

end Rule

namespace Grammar

open Rule Phrase

theorem fronts_terminal {kind : Expected} {means : List Char → α → Prop} : (terminal kind means).Fronts :=
  fun _ viable => viable.of_terminal.1

theorem fronts_of_uses {p : Phrase α} {kinds : List Expected} (uses : p.Uses kinds) (other : .token .attributeIndex ∉ kinds) :
    p.Fronts := fun _ viable => absurd (uses.viable viable) other

theorem literal_uses : Phrase.literal.Uses literalKinds := number_uses.map.either string_uses.map

theorem comparison_fronts : Phrase.comparison.Fronts := by
  intro ts viable
  have rest : ∀ i, (do let op ← Phrase.comparator; return ⟨i, op, ← Phrase.literal⟩ : Phrase Comparison).Uses
      (.token .comparator :: literalKinds) := fun i =>
    (uses_terminal.weaken (by decide)).bind fun _ => (literal_uses.weaken (by decide)).map
  rcases viable.of_bind with first | ⟨_, us, i, rfl, -, behind⟩
  · exact first.of_terminal.1
  · exact absurd ((rest i).viable behind) (by decide)

theorem argument_fronts : Phrase.argument.Fronts := by
  have rest : ((.string <$> Phrase.string).either (.number <$> Phrase.number) : Phrase Argument).Uses literalKinds :=
    string_uses.map.either number_uses.map
  intro ts viable
  rcases viable_either_iff.mp viable with index | literal
  · exact (viable_map_iff.mp index).of_terminal.1
  · exact absurd (rest.viable literal) (by decide)

theorem condition_orderly : condition.Orderly := by
  have comparison : (.comparison <$> comparison : Rule Condition).Orderly := (comparison_follows.orderly comparison_fronts).map
  have conjunction : (chain .and (.comparison <$> Grammar.comparison)).Orderly :=
    (comparison.separated (by decide) rfl (comparison_follows.map _) (comparison_predicts.map _) (by decide)).map
  exact (conjunction.separated (by decide) rfl (chain_follows .and (comparison_follows.map _)) conjunction_predicts (by decide)).map

theorem call_orderly : call.Orderly := by
  have name : Token.identifier.Quiet := identifier_follows.quiet uses_terminal (by decide)
  have arguments : (Rule.separated (Token.symbol ",") argument).Orderly :=
    (argument_follows.orderly argument_fronts).separated (by decide) rfl argument_follows argument_predicts (by decide)
  have follows : Follows (Rule.separated (Token.symbol ",") argument) (Phrase.list (Phrase.symbol ",") Phrase.argument) :=
    .separated (symbol_follows (by decide)) solid_terminal argument_follows
  refine name.bind (fun _ => (quiet_symbol (by decide)).bind (fun _ => ?_) (symbol_follows (by decide))) identifier_follows
  refine arguments.optional.bind_quiet (fun _ => ?_) follows.optional
  exact (quiet_symbol (by decide)).map

/-- A condition that fails has failed at its first comparison. -/
theorem condition_trail {c : Cursor} (failed : (condition c).verdict = .noMatch) : (condition c).trail = (comparison c).trail := by
  obtain ⟨inner, outer⟩ := separated_noMatch (noMatch_of_map failed)
  obtain ⟨-, first⟩ := separated_noMatch (noMatch_of_map inner)
  rw [condition, chain, map_trail, outer, chain, map_trail, first, map_trail]

theorem attributeItem_orderly : attributeItem.Orderly := by
  have dimension_quiet : (.dimension <$> dimension : Rule Attribute).Quiet :=
    (dimension_follows.quiet dimension_uses (by decide)).map
  have plain : Follows ((.index <$> Token.attributeIndex) <|> (.dimension <$> dimension) : Rule Attribute)
      ((.index <$> Phrase.attributeIndex).either (.dimension <$> Phrase.dimension)) :=
    .orElse (attributeIndex_follows.map _) (dimension_follows.map _)
  have others := Follows.orElse (call_follows.map Attribute.call) plain
  have fronts : ((.index <$> Phrase.attributeIndex).either (.dimension <$> Phrase.dimension) : Phrase Attribute).Fronts := by
    intro ts viable
    rcases viable_either_iff.mp viable with index | dimension
    · exact (viable_map_iff.mp index).of_terminal.1
    · exact absurd (dimension_uses.viable (viable_map_iff.mp dimension)) (by decide)
  refine condition_orderly.map.orElse (call_orderly.map.orElse (plain.orderly fronts) ?_) ?_
  · intro text c inside _ first here second there
    rw [map_trail] at here
    exact .inr ⟨c, inside, plain.stands fronts there, (call_follows.recalls c first here).2⟩
  · intro text c _ failed first here second there
    rw [map_trail, condition_trail (noMatch_of_map failed)] at here
    refine .inl ?_
    rw [(comparison_follows.stands comparison_fronts here).start]
    exact (others.recalls c second there).2.start_le

theorem hyperchunk_orderly : hyperchunk.Orderly := by
  have slash : Follows (Token.symbol "/") (Phrase.symbol "/") := symbol_follows (by decide)
  have slash_quiet : (Token.symbol "/").Quiet := quiet_symbol (by decide)
  have arrays : (alternatives dimension).Quiet :=
    (alternatives_follows dimension_follows).quiet (alternatives_uses dimension_uses) (by decide)
  have attributes : (alternatives attributeItem).Orderly :=
    attributeItem_orderly.separated (by decide) rfl attributeItem_follows attributeItem_predicts (by decide)
  have attributes_follows : Follows (do Token.symbol "/"; alternatives attributeItem)
      (do Phrase.symbol "/"; Phrase.alternatives Phrase.attributeItem) :=
    .bind slash fun _ => alternatives_follows attributeItem_follows
  have attributes_predicts := behind_slash (alternatives_predicts attributeItem_predicts attributeItem_follows)
  have order : (do Token.symbol "/"; Token.symbol "order:"; call : Rule Call).Orderly :=
    slash_quiet.bind (fun _ => (quiet_symbol (by decide)).bind (fun _ => call_orderly) (symbol_follows (by decide))) slash
  have order_follows : Follows (do Token.symbol "/"; Token.symbol "order:"; call)
      (do Phrase.symbol "/"; Phrase.symbol "order:"; Phrase.call) :=
    .bind slash fun _ => .bind (symbol_follows (by decide)) fun _ => call_follows
  have hyperslices : (Rule.optional (do Token.symbol "/"; alternatives hyperslice)).Quiet := by
    have follows : Follows (do Token.symbol "/"; alternatives hyperslice)
        (do Phrase.symbol "/"; Phrase.alternatives Phrase.hyperslice) :=
      .bind slash fun _ => alternatives_follows hyperslice_follows
    have uses := (uses_symbol List.mem_cons_self).bind fun _ => (alternatives_uses hyperslice_uses).weaken fun _ =>
      List.mem_cons_of_mem (Expected.symbol "/")
    exact follows.optional.quiet uses.maybe (by decide)
  refine arrays.bind (fun arrays => ?_) (alternatives_follows dimension_follows)
  refine (slash_quiet.bind (fun _ => attributes) slash).optional.bind (fun given => ?_) attributes_follows.optional ?_
  · cases given with
    | none => exact quiet_pure.orderly
    | some attributes => exact order.optional.bind_quiet (fun _ => hyperslices.map) order_follows.optional
  · intro c given d matched first here second there
    rcases optional_matched matched with ⟨attributes, rfl, found⟩ | ⟨rfl, -⟩
    · rw [optional_trail] at here
      have meets : ∀ ch, ch = '/' → ch ∈ afterSection := by simp [afterSection]
      exact attributes_predicts.start_le attributes_follows found (sections_follows arrays attributes)
        (sections_opens arrays (some attributes)) meets here there
    · cases there

theorem selector_orderly : selector.Orderly :=
  hyperchunk_orderly.separated (by decide) rfl hyperchunk_follows hyperchunk_predicts (by decide)

end Grammar

end ChunkSelector
