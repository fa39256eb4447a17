import ChunkSelector.Command.Request
import ChunkSelector.Proofs.Decimal
import ChunkSelector.Proofs.WellFormed
import ChunkSelector.Proofs.Writing

/-!
# Canonical texts read back

The canonical text of every well-formed node is written for the phrase of that node. With the
grammar on one side and the reader on the other, `Selector.text_reads_back` follows: canonical text
is read as the selector it was written from, and formatting a second time changes nothing.
-/

namespace ChunkSelector

open Phrase

/-! ### Dimensions -/

theorem Phrase.integer_writes (n : Int64) : Phrase.integer.Writes (integerText n.toInt) n := by
  obtain ⟨form, value⟩ := integerText_reads_back n.toInt
  exact .terminal ⟨form, value.symm⟩

theorem Phrase.optionalInteger_writes (n : Option Int64) : Phrase.integer.maybe.Writes (optionalInteger n) n := by
  cases n with
  | none => exact .none
  | some n => exact .some (integer_writes n)

theorem breaks_colon (text : List Char) : Breaks (':' :: text) := by
  simp [Breaks, show (':' : Char).isAlphanum = false from by decide]

theorem Slice.canonical_writes (s : Slice) : Phrase.slice.Writes s.canonical s := by
  obtain ⟨start, stop, step⟩ := s
  -- The second colon is there for a step only, though the phrase has it without one too.
  have last : ∃ read : Option (Option Int64), read.join = step ∧ ∃ text, Breaks text ∧
      Writes (maybe (do symbol ":"; maybe Phrase.integer)) text read ∧
      (Slice.mk start stop step).canonical = optionalInteger start ++ (':' :: (optionalInteger stop ++ text)) := by
    cases step with
    | none => exact ⟨none, rfl, [], breaks_nil, .none, by simp [Slice.canonical]⟩
    | some n =>
      have further : (maybe Phrase.integer).Writes (integerText n.toInt) (some n) := optionalInteger_writes (some n)
      exact ⟨some (some n), rfl, ':' :: integerText n.toInt, breaks_colon _, .some (.symbol_bind further),
        by simp [Slice.canonical]⟩
  obtain ⟨read, rfl, text, breaks, written, shown⟩ := last
  rw [shown]
  have finish := written.map fun step => (⟨start, stop, step.join⟩ : Slice)
  exact (optionalInteger_writes start).bind (.symbol_bind ((optionalInteger_writes stop).bind finish breaks)) (breaks_colon _)

theorem Dimension.canonical_writes (d : Dimension) : Phrase.dimension.Writes d.canonical d := by
  cases d with
  | slice s => exact (s.canonical_writes.map _).left
  | ellipsis =>
    have dots : Writes (do symbol "..."; return Dimension.ellipsis) ("...".toList ++ []) .ellipsis := .symbol_bind .pure
    exact dots.left.right
  | index n => exact ((integer_writes n).map Dimension.index).right.right

/-! ### Literals -/

theorem Phrase.string_writes (s : String) : Phrase.string.Writes (Quoted.literal s.toList) s := by
  have form : Lexeme.IsBody (Quoted.escape s.toList) :=
    (Lexeme.bodyOf_eq_some_iff.mp (Quoted.bodyOf_escape s.toList [])).2
  refine .terminal ⟨_, form, rfl, ?_⟩
  rw [Quoted.unescape_escape, String.ofList_toList]

theorem Number.canonical_writes {n : Number} (h : n.WellFormed) : Phrase.number.Writes n.canonical n := by
  cases n with
  | int n => exact ((integer_writes n).map Number.int).right
  | float x =>
    obtain ⟨form, value⟩ := Binary64.canonical_reads_back h
    have written : Phrase.float.Writes x.canonical x := .terminal ⟨form, value.symm, h⟩
    exact (written.map Number.float).left

theorem Literal.canonical_writes {l : Literal} (h : l.WellFormed) : Phrase.literal.Writes l.canonical l := by
  cases l with
  | number n => exact ((Number.canonical_writes h).map Literal.number).left
  | string s => exact ((string_writes s).map Literal.string).right

/-! ### Conditions -/

theorem Phrase.attributeIndex_writes (i : AttributeIndex) : Phrase.attributeIndex.Writes i.canonical i :=
  .terminal (AttributeIndex.canonical_reads_back i)

theorem blank_space : Blank [' '] := by simp [Blank, show isBlank ' ' = true from by decide]

theorem breaks_space (text : List Char) : Breaks (' ' :: text) := by
  simp [Breaks, show (' ' : Char).isAlphanum = false from by decide]

theorem Comparison.canonical_writes {c : Comparison} (h : c.WellFormed) : Phrase.comparison.Writes c.canonical c := by
  have value : Writes (do return ⟨c.index, c.comparator, ← Phrase.literal⟩) ([' '] ++ c.value.canonical) c :=
    ((Literal.canonical_writes h).map (Comparison.mk c.index c.comparator)).blanks blank_space
      (solid_map Grammar.literal_solid)
  have op : Phrase.comparator.Writes c.comparator.symbol.toList c.comparator := .terminal rfl
  have further : Writes (do let op ← Phrase.comparator; return ⟨c.index, op, ← Phrase.literal⟩)
      ([' '] ++ (c.comparator.symbol.toList ++ ([' '] ++ c.value.canonical))) c :=
    (op.bind value (breaks_space _)).blanks blank_space (solid_bind_left solid_terminal)
  rw [Comparison.canonical, List.append_assoc]
  exact (attributeIndex_writes c.index).bind further (breaks_space _)

theorem Condition.canonicalAll_eq_map (operands : List Condition) :
    Condition.canonicalAll operands = operands.map Condition.canonical := by
  induction operands with
  | nil => rfl
  | cons first more ih => rw [Condition.canonicalAll, List.map_cons, ih]

/-- The keyword between two operands. -/
def Connective.spaced (connective : Connective) : List Char := ' ' :: connective.keyword.toList ++ [' ']

theorem Condition.ofOperands_of_several {connective : Connective} {operands : List Condition} (several : 2 ≤ operands.length) :
    ofOperands connective operands = .chain connective operands := by
  match operands, several with
  | first :: second :: more, _ => rfl

theorem Condition.canonical_ofOperands (connective : Connective) (operands : List Condition) :
    (ofOperands connective operands).canonical = connective.spaced.intercalate (operands.map canonical) := by
  match operands with
  | [] => rfl
  | [only] => rw [ofOperands, List.map_singleton, List.intercalate_singleton]
  | first :: second :: more =>
    rw [ofOperands_of_several (by simp), canonical, canonicalAll_eq_map]
    rfl

theorem Phrase.chain_writes {connective : Connective} {operand : Phrase Condition} (solid : operand.Solid)
    {operands : List Condition} (some : operands ≠ []) (h : ∀ c ∈ operands, operand.Writes c.canonical c) :
    (chain connective operand).Writes (Condition.ofOperands connective operands).canonical (.ofOperands connective operands) := by
  have glue : connective.spaced = [' '] ++ connective.keyword.toList ++ [' '] := rfl
  have present : connective.spaced ≠ [] := by simp [Connective.spaced]
  rw [Condition.canonical_ofOperands]
  exact (Writes.list solid blank_space blank_space glue present (breaks_space _) some h).map (Condition.ofOperands connective)

theorem Condition.Conjunction.canonical_writes {c : Condition} (h : c.Conjunction) :
    (Phrase.chain .and (.comparison <$> Phrase.comparison)).Writes c.canonical c := by
  have solid : (.comparison <$> Phrase.comparison : Phrase Condition).Solid := solid_map Grammar.comparison_solid
  have single : ∀ {test : Comparison}, test.WellFormed →
      (.comparison <$> Phrase.comparison : Phrase Condition).Writes (Condition.comparison test).canonical (.comparison test) := by
    intro test good
    rw [Condition.canonical]
    exact (Comparison.canonical_writes good).map _
  cases h with
  | @comparison test good =>
    exact chain_writes solid (List.cons_ne_nil (Condition.comparison test) []) (by simpa using single good)
  | @chain tests several good =>
    have some : tests.map Condition.comparison ≠ [] := List.ne_nil_of_length_pos (by rw [List.length_map]; omega)
    rw [← ofOperands_of_several (by rwa [List.length_map])]
    refine chain_writes solid some fun c member => ?_
    obtain ⟨test, inside, rfl⟩ := List.mem_map.mp member
    exact single (good test inside)

theorem Condition.canonical_writes {c : Condition} (h : c.WellFormed) : Phrase.condition.Writes c.canonical c := by
  have solid : (Phrase.chain .and (.comparison <$> Phrase.comparison)).Solid :=
    solid_map (solid_list (solid_map Grammar.comparison_solid))
  cases h with
  | conjunction good => exact chain_writes solid (List.cons_ne_nil c []) (by simpa using good.canonical_writes)
  | @chain operands several good =>
    have some : operands ≠ [] := List.ne_nil_of_length_pos (by omega)
    rw [← ofOperands_of_several several]
    exact chain_writes solid some fun c member => (good c member).canonical_writes

/-! ### Calls -/

theorem Argument.canonical_writes {a : Argument} (h : a.WellFormed) : Phrase.argument.Writes a.canonical a := by
  cases a with
  | index i => exact ((attributeIndex_writes i).map Argument.index).left
  | string s => exact ((string_writes s).map Argument.string).left.right
  | number n => exact ((Number.canonical_writes h).map Argument.number).right.right

theorem Phrase.arguments_writes {arguments : List Argument} (h : ∀ a ∈ arguments, a.WellFormed) :
    ∃ read, (maybe (Phrase.list (symbol ",") Phrase.argument)).Writes
      ([',', ' '].intercalate (arguments.map Argument.canonical)) read ∧ read.getD [] = arguments := by
  cases arguments with
  | nil => exact ⟨none, .none, rfl⟩
  | cons first more =>
    have glue : [',', ' '] = [] ++ ",".toList ++ [' '] := rfl
    have breaks : Breaks [',', ' '] := by simp [Breaks, show (',' : Char).isAlphanum = false from by decide]
    have written := Writes.list Grammar.argument_solid blank_nil blank_space glue (by simp) breaks (by simp)
      fun a member => Argument.canonical_writes (h a member)
    exact ⟨some (first :: more), written.some, rfl⟩

theorem Call.canonical_writes {c : Call} (h : c.WellFormed) : Phrase.call.Writes c.canonical c := by
  obtain ⟨name, arguments⟩ := c
  obtain ⟨read, inside, same⟩ := arguments_writes h.arguments
  obtain rfl := same
  have closing : Writes (do symbol ")"; return (⟨name, read.getD []⟩ : Call)) (")".toList ++ []) ⟨name, read.getD []⟩ :=
    .symbol_bind .pure
  have breaks : Breaks (")".toList ++ []) := by simp [Breaks]
  have called : Phrase.identifier.Writes name.toList name := .terminal ⟨h.name, String.ofList_toList.symm⟩
  have opening : Breaks ("(".toList ++ ([',', ' '].intercalate ((read.getD []).map Argument.canonical) ++ (")".toList ++ []))) := by
    simp [Breaks]
  rw [Call.canonical, List.append_assoc]
  exact called.bind (.symbol_bind (inside.bind closing breaks)) opening

/-! ### Clauses -/

theorem Attribute.canonical_writes {a : Attribute} (h : a.WellFormed) : Phrase.attributeItem.Writes a.canonical a := by
  cases a with
  | condition filter => exact ((Condition.canonical_writes h).map Attribute.condition).left
  | call function => exact ((Call.canonical_writes h).map Attribute.call).left.right
  | index i => exact ((attributeIndex_writes i).map Attribute.index).left.right.right
  | dimension selected => exact (selected.canonical_writes.map Attribute.dimension).right.right.right

theorem Phrase.alternatives_writes {α : Type} {item : Phrase α} {write : α → List Char} (solid : item.Solid) {items : List α}
    (some : items ≠ []) (h : ∀ v ∈ items, item.Writes (write v) v) :
    (alternatives item).Writes (alternativesText write items) items := by
  have glue : ['|'] = [] ++ "|".toList ++ [] := rfl
  have breaks : Breaks ['|'] := by simp [Breaks, show ('|' : Char).isAlphanum = false from by decide]
  exact .list solid blank_nil blank_nil glue (by simp) breaks some h

theorem Hyperslice.canonical_writes {items : Hyperslice} (some : items ≠ []) :
    Phrase.hyperslice.Writes (Hyperslice.canonical items) items := by
  have glue : [','] = [] ++ ",".toList ++ [] := rfl
  have breaks : Breaks [','] := by simp [Breaks, show (',' : Char).isAlphanum = false from by decide]
  exact .list Grammar.dimension_solid blank_nil blank_nil glue (by simp) breaks some fun d _ => d.canonical_writes

theorem Phrase.section_writes {α : Type} {p : Phrase α} {write : α → List Char} {content : Option α}
    (h : ∀ v ∈ content, p.Writes (write v) v) :
    (maybe (do symbol "/"; p)).Writes (sectionText write content) content ∧ Breaks (sectionText write content) := by
  cases content with
  | none => exact ⟨.none, breaks_nil⟩
  | some v =>
    have slash : Writes (do symbol "/"; p) ("/".toList ++ write v) v := .symbol_bind (h v rfl)
    exact ⟨slash.some, by simp [sectionText, Breaks, show ('/' : Char).isAlphanum = false from by decide]⟩

theorem Hyperchunk.canonical_writes {h : Hyperchunk} (good : h.WellFormed) : Phrase.hyperchunk.Writes h.canonical h := by
  obtain ⟨arrays, attributes, order, hyperslices⟩ := h
  obtain ⟨some, attributesGood, orderGood, hyperslicesGood⟩ := good
  have first : (alternatives Phrase.dimension).Writes (alternativesText Dimension.canonical arrays) arrays :=
    alternatives_writes Grammar.dimension_solid some fun d _ => d.canonical_writes
  obtain ⟨second, breaks⟩ : _ ∧ Breaks (sectionText (alternativesText Attribute.canonical) attributes) :=
    section_writes fun items member => alternatives_writes Grammar.attributeItem_solid (attributesGood items member).1
      fun item inside => Attribute.canonical_writes ((attributesGood items member).2 item inside)
  have ordered : ∀ call ∈ order, Writes (do symbol "order:"; Phrase.call) ("order:".toList ++ call.canonical) call :=
    fun call member => .symbol_bind (Call.canonical_writes (orderGood call member).2)
  obtain ⟨third, breaks'⟩ : _ ∧ Breaks (sectionText (fun call => "order:".toList ++ call.canonical) order) :=
    section_writes ordered
  obtain ⟨fourth, breaks''⟩ : _ ∧ Breaks (sectionText (alternativesText Hyperslice.canonical) hyperslices) :=
    section_writes fun items member => alternatives_writes Grammar.hyperslice_solid (hyperslicesGood items member).2.1
      fun item inside => Hyperslice.canonical_writes ((hyperslicesGood items member).2.2 item inside)
  have rest : (sections arrays attributes).Writes (sectionText (fun call => "order:".toList ++ call.canonical) order ++
      sectionText (alternativesText Hyperslice.canonical) hyperslices) ⟨arrays, attributes, order, hyperslices⟩ := by
    cases attributes with
    | none =>
      -- Without attributes there is neither an order nor hyperslices to write.
      cases order with
      | some call => exact absurd rfl (orderGood call rfl).1
      | none =>
        cases hyperslices with
        | some items => exact absurd rfl (hyperslicesGood items rfl).1
        | none => exact .pure
    | some attributes => exact third.bind (fourth.map _) breaks''
  rw [Hyperchunk.canonical, List.append_assoc, List.append_assoc]
  exact first.bind (second.bind rest (breaks_append breaks' breaks'')) (breaks_append breaks (breaks_append breaks' breaks''))

namespace Selector

theorem canonical_writes {s : Selector} (good : s.WellFormed) : Phrase.selector.Writes s.canonical s := by
  have glue : [';'] = [] ++ ";".toList ++ [] := rfl
  have breaks : Breaks [';'] := by simp [Breaks, show (';' : Char).isAlphanum = false from by decide]
  exact .list Grammar.hyperchunk_solid blank_nil blank_nil glue (by simp) breaks good.some
    fun h member => Hyperchunk.canonical_writes (good.clauses h member)

/-! ### Reading what was written -/

theorem parse_text {s : Selector} (good : s.WellFormed) : parse s.text = .ok s := by
  obtain ⟨ts, read, spelled⟩ := (canonical_writes good).spells
  refine parse_eq_ok_iff.mpr ⟨ts, [], ?_, blank_nil, read⟩
  rw [text, String.toList_ofList]
  exact spelled

theorem formatText_eq_ok_iff {text out : String} :
    formatText text = .ok out ↔ ∃ s : Selector, parse text = .ok s ∧ s.text = out := by
  unfold formatText readSelector
  cases parse text with
  | error e => simp [Except.mapError, bind, Except.bind]
  | ok s => simp [Except.mapError, bind, Except.bind, pure, Except.pure]

/-- Canonical text is read as the selector it was written from, so formatting it changes nothing. -/
theorem text_reads_back : (∀ s : Selector, s.WellFormed → parse s.text = .ok s) ∧
    ∀ text out : String, formatText text = .ok out → formatText out = .ok out := by
  refine ⟨fun s good => parse_text good, fun text out formatted => ?_⟩
  obtain ⟨s, accepted, rfl⟩ := formatText_eq_ok_iff.mp formatted
  exact formatText_eq_ok_iff.mpr ⟨s, parse_text (wellFormed_of_derives (parse_eq_ok_iff.mp accepted)), rfl⟩

theorem text_reads_back_of_zero :
    WellFormed [⟨[.index 0], some [.condition (.comparison ⟨0, .less, .number (.float ⟨0x8000000000000000⟩)⟩)], none, none⟩] ∧
    parse (text [⟨[.index 0], some [.condition (.comparison ⟨0, .less, .number (.float ⟨0x8000000000000000⟩)⟩)], none, none⟩]) =
      .ok [⟨[.index 0], some [.condition (.comparison ⟨0, .less, .number (.float ⟨0x8000000000000000⟩)⟩)], none, none⟩] ∧
    formatText " 0/ a0<2" = .ok "0/a0 < 2" ∧ formatText "0/a0 < 2" = .ok "0/a0 < 2" := by
  have good : WellFormed [⟨[.index 0], some [.condition (.comparison ⟨0, .less, .number (.float ⟨0x8000000000000000⟩)⟩)],
      none, none⟩] := by
    refine ⟨by simp, fun h member => ?_⟩
    obtain rfl := List.mem_singleton.mp member
    refine ⟨by simp, ?_, by simp, by simp⟩
    rintro _ ⟨⟩
    refine ⟨by simp, fun item inside => ?_⟩
    obtain rfl := List.mem_singleton.mp inside
    exact .conjunction (.comparison (by decide : Binary64.isFinite ⟨0x8000000000000000⟩ = true))
  have accepted : parse " 0/ a0<2" =
      .ok [⟨[.index 0], some [.condition (.comparison ⟨0, .less, .number (.int 2)⟩)], none, none⟩] := by rfl
  have formatted : formatText " 0/ a0<2" = .ok "0/a0 < 2" := formatText_eq_ok_iff.mpr ⟨_, accepted, by decide⟩
  exact ⟨good, text_reads_back.1 _ good, formatted, text_reads_back.2 _ _ formatted⟩

end Selector

end ChunkSelector
