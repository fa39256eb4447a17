import ChunkSelector.Proofs.Rule
import ChunkSelector.Reading

/-!
# The rules of the grammar follow its phrases

`selector_follows` and its companions. The phrases of a slice and of a hyperchunk, in the published
form and in the form of their rules, are the same.
-/

namespace ChunkSelector.Grammar

open Rule

theorem symbol_follows {text : String} (known : text ∈ Terminal.symbols) :
    Follows (Token.symbol text) (Phrase.symbol text) :=
  .terminal (Token.symbol_takes known) ⟨_, (), _, rfl, rfl⟩

theorem integer_follows : Follows Token.integer Phrase.integer :=
  .terminal Token.integer_takes ⟨_, 0, ['0'], rfl, .zero, by decide⟩

theorem float_follows : Follows Token.float Phrase.float := by
  have form : Lexeme.IsFloat ['0', '.'] := .trailing (Lexeme.digits_cons.mpr ⟨by decide, Lexeme.digits_nil⟩) (by simp)
  exact .terminal Token.float_takes ⟨_, _, ['0', '.'], rfl, form, rfl, by decide⟩

theorem attributeIndex_follows : Follows Token.attributeIndex Phrase.attributeIndex := by
  have form : Lexeme.IsAttributeIndex ['a', '0'] := .mk (Lexeme.digits_cons.mpr ⟨by decide, Lexeme.digits_nil⟩) (by simp)
  exact .terminal Token.attributeIndex_takes ⟨_, 0, ['a', '0'], rfl, form, by decide⟩

theorem identifier_follows : Follows Token.identifier Phrase.identifier :=
  .terminal Token.identifier_takes ⟨_, "f", ['f'], rfl, .mk (by decide) (by simp), rfl⟩

theorem comparator_follows : Follows Token.comparator Phrase.comparator :=
  .terminal Token.comparator_takes ⟨_, .less, _, rfl, rfl⟩

theorem string_follows : Follows Token.string Phrase.string :=
  .terminal Token.string_takes ⟨_, "", _, rfl, [], .nil, rfl, rfl⟩

/-! ### Slices -/

/-- The step of a slice, decided at its colon. -/
theorem step_eq (start stop : Option Int64) :
    (do let step ← Phrase.maybe (do Phrase.symbol ":"; Phrase.maybe Phrase.integer)
        return ⟨start, stop, step.join⟩ : Phrase Slice) =
      (do match ← Phrase.maybe (Phrase.symbol ":") with
          | some () => return ⟨start, stop, ← Phrase.maybe Phrase.integer⟩
          | none => return ⟨start, stop, none⟩) := by
  funext ts v
  refine propext ⟨?_, ?_⟩
  · rintro ⟨first, _, step, rfl, read, rfl, rfl⟩
    rcases Phrase.maybe_iff.mp read with ⟨last, ⟨colon, more, ⟨⟩, rfl, head, tail⟩, rfl⟩ | ⟨rfl, rfl⟩
    · exact ⟨colon, more ++ [], some (), by simp, Phrase.maybe_some_iff.mpr head, more, [], last, rfl, tail, rfl, rfl⟩
    · exact ⟨[], [], none, rfl, Phrase.maybe_none_iff.mpr rfl, rfl, rfl⟩
  · rintro ⟨first, more, colon, rfl, read, rest⟩
    rcases Phrase.maybe_iff.mp read with ⟨⟨⟩, head, rfl⟩ | ⟨rfl, rfl⟩
    · obtain ⟨more, _, last, rfl, tail, rfl, rfl⟩ := rest
      refine ⟨first ++ more, [], some last, by simp, Phrase.maybe_some_iff.mpr ?_, rfl, rfl⟩
      exact ⟨first, more, (), rfl, head, tail⟩
    · obtain ⟨rfl, rfl⟩ := rest
      exact ⟨[], [], none, rfl, Phrase.maybe_none_iff.mpr rfl, rfl, rfl⟩

theorem slice_eq : Phrase.slice = (do
    let start ← Phrase.maybe Phrase.integer
    Phrase.symbol ":"
    let stop ← Phrase.maybe Phrase.integer
    match ← Phrase.maybe (Phrase.symbol ":") with
    | some () => return ⟨start, stop, ← Phrase.maybe Phrase.integer⟩
    | none => return ⟨start, stop, none⟩) := by
  unfold Phrase.slice
  congr 1
  funext start
  congr 1
  funext _
  congr 1
  funext stop
  exact step_eq start stop

/-! ### From a slice up to a selector -/

theorem slice_follows : Follows slice Phrase.slice := by
  rw [slice_eq]
  have colon : Follows (Token.symbol ":") (Phrase.symbol ":") := symbol_follows (by decide)
  refine .bind integer_follows.optional fun start => .bind colon fun _ => .bind integer_follows.optional fun stop =>
    .bind colon.optional fun second => ?_
  cases second with
  | none => exact .pure _
  | some _ => exact .bind integer_follows.optional fun _ => .pure _

theorem dimension_follows : Follows dimension Phrase.dimension := by
  have ellipsis : Follows (Token.symbol "...") (Phrase.symbol "...") := symbol_follows (by decide)
  exact .orElse (slice_follows.map _) (.orElse (.bind ellipsis fun _ => .pure _) (integer_follows.map _))

/-! ### Attributes -/

theorem number_follows : Follows Token.number Phrase.number :=
  .orElse (float_follows.map _) (integer_follows.map _)

theorem literal_follows : Follows literal Phrase.literal :=
  .orElse (number_follows.map _) (string_follows.map _)

theorem comparison_follows : Follows comparison Phrase.comparison :=
  .bind attributeIndex_follows fun _ => .bind comparator_follows fun _ => .bind literal_follows fun _ => .pure _

theorem keyword_known (connective : Connective) : connective.keyword ∈ Terminal.symbols := by
  cases connective <;> decide

theorem chain_follows {operand : Rule Condition} {phrase : Phrase Condition} (connective : Connective)
    (h : Follows operand phrase) :
    Follows (chain connective operand) (Phrase.chain connective phrase) :=
  (Follows.separated (symbol_follows (keyword_known connective)) Phrase.solid_terminal h).map _

theorem condition_follows : Follows condition Phrase.condition :=
  chain_follows .or (chain_follows .and (comparison_follows.map _))

theorem argument_follows : Follows argument Phrase.argument :=
  .orElse (attributeIndex_follows.map _) (.orElse (string_follows.map _) (number_follows.map _))

theorem call_follows : Follows call Phrase.call := by
  have opening : Follows (Token.symbol "(") (Phrase.symbol "(") := symbol_follows (by decide)
  have closing : Follows (Token.symbol ")") (Phrase.symbol ")") := symbol_follows (by decide)
  have arguments : Follows (Rule.separated (Token.symbol ",") argument) (Phrase.list (Phrase.symbol ",") Phrase.argument) :=
    .separated (symbol_follows (by decide)) Phrase.solid_terminal argument_follows
  exact .bind identifier_follows fun _ => .bind opening fun _ => .bind arguments.optional fun _ =>
    .bind closing fun _ => .pure _

theorem attributeItem_follows : Follows attributeItem Phrase.attributeItem :=
  .orElse (condition_follows.map _) (.orElse (call_follows.map _)
    (.orElse (attributeIndex_follows.map _) (dimension_follows.map _)))

/-! ### Clauses -/

theorem alternatives_follows {rule : Rule α} {phrase : Phrase α} (h : Follows rule phrase) :
    Follows (alternatives rule) (Phrase.alternatives phrase) :=
  .separated (symbol_follows (by decide)) Phrase.solid_terminal h

theorem hyperslice_follows : Follows hyperslice Phrase.hyperslice :=
  .separated (symbol_follows (by decide)) Phrase.solid_terminal dimension_follows

theorem sections_follows (arrays : List Dimension) (attributes : List Attribute) : Follows (do
      let order ← Rule.optional (do Token.symbol "/"; Token.symbol "order:"; call)
      let hyperslices ← Rule.optional (do Token.symbol "/"; alternatives hyperslice)
      return (⟨arrays, some attributes, order, hyperslices⟩ : Hyperchunk)) (Phrase.sections arrays (some attributes)) := by
  have slash : Follows (Token.symbol "/") (Phrase.symbol "/") := symbol_follows (by decide)
  have order : Follows (Token.symbol "order:") (Phrase.symbol "order:") := symbol_follows (by decide)
  exact .bind (.optional (.bind slash fun _ => .bind order fun _ => call_follows)) fun _ =>
    .bind (.optional (.bind slash fun _ => alternatives_follows hyperslice_follows)) fun _ => .pure _

theorem hyperchunk_follows : Follows hyperchunk Phrase.hyperchunk := by
  have slash : Follows (Token.symbol "/") (Phrase.symbol "/") := symbol_follows (by decide)
  refine .bind (alternatives_follows dimension_follows) fun arrays =>
    .bind (.optional (.bind slash fun _ => alternatives_follows attributeItem_follows)) fun attributes => ?_
  cases attributes with
  | none => exact .pure _
  | some attributes => exact sections_follows arrays attributes

theorem selector_follows : Follows selector Phrase.selector :=
  .separated (symbol_follows (by decide)) Phrase.solid_terminal hyperchunk_follows

end ChunkSelector.Grammar
