import ChunkSelector.Proofs.Pieces

/-!
# Nothing is empty behind a separator

In a text of the grammar a terminal that is no separator stands behind each separator
(`Grammar.selector_filled`), so a text that is begun does not have two of them with only blanks between, and
does not end with one.
-/

namespace ChunkSelector

/-- The terminal separates two parts of a selector. -/
def Terminal.Separates (t : Terminal) : Prop := ∃ c, t.text = [c] ∧ isSeparator c = true

/-- Behind each separator stands a terminal that is none. -/
def Filled : List Terminal → Prop
  | [] => True
  | t :: ts => (t.Separates → ∃ u ∈ ts.head?, ¬ u.Separates) ∧ Filled ts

namespace Filled

variable {ts us : List Terminal} {t : Terminal}

theorem of_none (h : ∀ t ∈ ts, ¬ t.Separates) : Filled ts := by
  induction ts with
  | nil => trivial
  | cons t ts ih => exact ⟨fun separates => absurd separates (h t (by simp)), ih fun u member => h u (by simp [member])⟩

theorem append (left : Filled ts) (right : Filled us) : Filled (ts ++ us) := by
  induction ts with
  | nil => exact right
  | cons t ts ih =>
    obtain ⟨next, rest⟩ := left
    refine ⟨fun separates => ?_, ih rest⟩
    obtain ⟨u, head, other⟩ := next separates
    obtain ⟨more, rfl⟩ := List.head?_eq_some_iff.mp head
    exact ⟨u, rfl, other⟩

theorem of_append (h : Filled (ts ++ us)) : Filled us := by
  induction ts with
  | nil => exact h
  | cons t ts ih => exact ih h.2

theorem next (h : Filled (ts ++ t :: us)) (separates : t.Separates) : ∃ u ∈ us.head?, ¬ u.Separates := h.of_append.1 separates

end Filled

/-! ### Separators in a text -/

/-- A lexeme that begins with a separator is that symbol. -/
theorem Terminal.IsLexeme.of_separator {t : Terminal} {c : Char} {more : List Char} (h : t.IsLexeme) (begins : t.text = c :: more)
    (separates : isSeparator c = true) : ∃ w ∈ symbols, t = ⟨.symbol w, [c]⟩ ∧ w.toList = [c] := by
  rcases h.shape with ⟨body, -, string⟩ | ⟨first, _, shape, -, -, start, -⟩
  · obtain ⟨rfl, -⟩ := List.cons.inj (begins.symm.trans string)
    exact absurd separates (by decide)
  obtain ⟨rfl, -⟩ := List.cons.inj (begins.symm.trans shape)
  rcases start with ⟨w, kind⟩ | opens
  · obtain ⟨_, text⟩ := t
    cases kind
    obtain ⟨known, _, ⟨⟩, rfl⟩ := h
    have same : w.toList = c :: more := begins
    have single := symbol_of_separator w known c (by rw [same]; exact List.mem_cons_self) separates
    exact ⟨w, known, by rw [single], single⟩
  · rw [opensToken_of_separator separates] at opens
    cases opens

/-- A separator behind a settled text is a terminal. -/
theorem Written.at_separator {front rest : List Char} {c : Char} {ts : List Terminal} (h : Written (front ++ c :: rest) ts)
    (lexemes : ∀ t ∈ ts, t.IsLexeme) (settled : Settled front) (separates : isSeparator c = true) :
    ∃ before w behind, ts = before ++ ⟨.symbol w, [c]⟩ :: behind ∧ w.toList = [c] ∧ Written front before ∧ Written rest behind := by
  have visible := isBlank_of_separator separates
  have stop : Stops (c :: rest) := by simpa [Stops] using goesOn_of_separator separates
  obtain ⟨before, behind, rfl, left, tail, spelled, blank⟩ := h.cut lexemes settled stop
  generalize whole : c :: rest = text at spelled
  cases spelled with
  | nil =>
    subst whole
    rw [blank c List.mem_cons_self] at visible
    cases visible
  | @cons blanks t _ behind _ space _ more =>
    cases blanks with
    | cons ch blanks =>
      obtain ⟨rfl, -⟩ := List.cons.inj whole
      rw [space c List.mem_cons_self] at visible
      cases visible
    | nil =>
      have lexeme := lexemes t (by simp)
      obtain ⟨ch, _, begins, -⟩ := lexeme.begins
      obtain rfl : c = ch := by
        rw [begins] at whole
        exact (List.cons.inj whole).1
      obtain ⟨w, -, rfl, single⟩ := lexeme.of_separator begins separates
      obtain ⟨-, rfl⟩ := List.cons.inj whole
      exact ⟨before, w, behind, rfl, single, left, tail, more, blank⟩

namespace Phrase

variable {α β : Type} {p q : Phrase α} {starts : Char → Prop}

/-- The texts of the phrase are filled. -/
def Fills (p : Phrase α) : Prop := ∀ ts v, p ts v → Filled ts

theorem fills_pure {v : α} : (pure v : Phrase α).Fills := by
  rintro _ _ ⟨rfl, -⟩
  trivial

theorem Fills.bind {next : α → Phrase β} (h : p.Fills) (rest : ∀ a, (next a).Fills) : (p >>= next).Fills := by
  rintro _ v ⟨first, more, a, rfl, head, tail⟩
  exact (h first a head).append (rest a more v tail)

theorem Fills.map {f : α → β} (h : p.Fills) : (f <$> p).Fills := h.bind fun _ => fills_pure

theorem Fills.either (left : p.Fills) (right : q.Fills) : (p.either q).Fills :=
  fun ts v read => read.elim (left ts v) (right ts v)

theorem Fills.maybe (h : p.Fills) : p.maybe.Fills := h.map.either fills_pure

theorem Fills.many (h : p.Fills) : p.many.Fills := by
  intro ts v read
  induction read with
  | nil => trivial
  | cons head _ ih => exact (h _ _ head).append ih

/-- Behind a symbol stands a phrase that begins with something else than a separator. -/
theorem Fills.behind_symbol {w : String} (h : p.Fills) (solid : p.Solid) (opens : p.Opens starts)
    (apart : ∀ c ∈ separators, ¬ starts c) : (do symbol w; p : Phrase α).Fills := by
  rintro _ v ⟨_, more, _, rfl, ⟨text, rfl, -⟩, read⟩
  refine ⟨fun _ => ?_, h more v read⟩
  cases more with
  | nil => exact absurd read (solid v)
  | cons u more =>
    refine ⟨u, rfl, ?_⟩
    rintro ⟨c, same, separates⟩
    obtain ⟨ch, _, begins, -, start⟩ := opens u more v read
    obtain ⟨rfl, -⟩ := List.cons.inj (same.symm.trans begins)
    exact apart c (mem_separators separates) start

theorem Fills.list {w : String} (h : p.Fills) (solid : p.Solid) (opens : p.Opens starts) (apart : ∀ c ∈ separators, ¬ starts c) :
    (list (symbol w) p).Fills :=
  h.bind fun _ => (h.behind_symbol solid opens apart).many.map

def separatorKinds : List Expected := [.symbol "/", .symbol "|", .symbol ";", .symbol ","]

theorem fills_of_uses {rule : Rule α} {kinds : List Expected} (follows : Rule.Follows rule p) (uses : p.Uses kinds)
    (apart : ∀ kind ∈ separatorKinds, kind ∉ kinds) : p.Fills := by
  intro ts v read
  refine .of_none fun t member ⟨c, same, separates⟩ => ?_
  obtain ⟨w, known, rfl, single⟩ := (follows.lexemes read t member).of_separator same separates
  have symbols : ∀ w ∈ Terminal.symbols, w.toList.all isSeparator = true → .symbol w ∈ separatorKinds := by decide
  exact apart _ (symbols w known (by simp [single, separates])) (uses ts v read _ member)

end Phrase

namespace Grammar

open Rule Phrase

theorem dimension_filled : Phrase.dimension.Fills := fills_of_uses dimension_follows dimension_uses (by decide)

theorem argument_opens : Phrase.argument.Opens argumentStart := by
  have index : Phrase.attributeIndex.Opens (· = 'a') := .terminal Token.attributeIndex_takes
  refine (index.map.weaken fun _ => .inl).either ((string_opens.map.weaken fun _ start => .inr (.inl start)).either ?_)
  exact number_opens.map.weaken fun _ start => .inr (.inr start)

theorem symbol_filled {w : String} (known : w ∈ Terminal.symbols) (other : ∀ kind ∈ separatorKinds, kind ∉ [.symbol w]) :
    (Phrase.symbol w).Fills := fills_of_uses (symbol_follows known) uses_terminal other

theorem call_filled : Phrase.call.Fills := by
  have name : Phrase.identifier.Fills := fills_of_uses identifier_follows uses_terminal (by decide)
  have argument : Phrase.argument.Fills := fills_of_uses argument_follows argument_uses (by decide)
  have arguments : (Phrase.list (Phrase.symbol ",") Phrase.argument).Fills :=
    argument.list argument_solid argument_opens (by decide)
  refine name.bind fun _ => (symbol_filled (by decide) (by decide)).bind fun _ => arguments.maybe.bind fun _ => ?_
  exact (symbol_filled (by decide) (by decide)).map

def attributeStart (c : Char) : Prop := c.isAlpha = true ∨ dimensionStart c

instance : DecidablePred attributeStart := fun c => inferInstanceAs (Decidable (c.isAlpha = true ∨ dimensionStart c))

theorem attributeItem_opens : Phrase.attributeItem.Opens attributeStart := by
  have index : Phrase.attributeIndex.Opens (·.isAlpha = true) := by
    refine (Opens.terminal Token.attributeIndex_takes).weaken ?_
    rintro _ rfl
    decide
  have comparison : Phrase.comparison.Opens (·.isAlpha = true) := index.bind_solid solid_terminal
  have conjunction : (Phrase.chain .and (.comparison <$> Phrase.comparison)).Opens (·.isAlpha = true) :=
    (comparison.map.list (solid_map comparison_solid)).map
  have condition : Phrase.condition.Opens (·.isAlpha = true) :=
    (conjunction.list (solid_map (solid_list (solid_map comparison_solid)))).map
  have call : Phrase.call.Opens (·.isAlpha = true) := (Opens.terminal Token.identifier_takes).bind_solid solid_terminal
  refine (condition.map.weaken fun _ => .inl).either ((call.map.weaken fun _ => .inl).either ?_)
  exact (index.map.weaken fun _ => .inl).either (dimension_opens.map.weaken fun _ => .inr)

theorem attributeItem_filled : Phrase.attributeItem.Fills := by
  have condition : Phrase.condition.Fills := fills_of_uses condition_follows condition_uses (by decide)
  have index : Phrase.attributeIndex.Fills := fills_of_uses attributeIndex_follows uses_terminal (by decide)
  exact condition.map.either (call_filled.map.either (index.map.either dimension_filled.map))

theorem hyperslice_filled : Phrase.hyperslice.Fills := dimension_filled.list dimension_solid dimension_opens (by decide)

theorem sections_filled (arrays : List Dimension) (attributes : Option (List Attribute)) : (sections arrays attributes).Fills := by
  cases attributes with
  | none => exact fills_pure
  | some attributes =>
    have ordered : (do Phrase.symbol "order:"; Phrase.call).Fills :=
      (symbol_filled (by decide) (by decide)).bind fun _ => call_filled
    have order : (do Phrase.symbol "/"; Phrase.symbol "order:"; Phrase.call).Fills :=
      ordered.behind_symbol (solid_bind_left solid_terminal) ((symbol_opens (by decide) rfl).bind_solid solid_terminal) (by decide)
    have alternatives : (Phrase.alternatives Phrase.hyperslice).Fills :=
      hyperslice_filled.list hyperslice_solid hyperslice_opens (by decide)
    have hyperslices : (do Phrase.symbol "/"; Phrase.alternatives Phrase.hyperslice).Fills :=
      alternatives.behind_symbol (solid_list hyperslice_solid) (hyperslice_opens.list hyperslice_solid) (by decide)
    exact order.maybe.bind fun _ => hyperslices.maybe.map

theorem hyperchunk_filled : Phrase.hyperchunk.Fills := by
  have arrays : (Phrase.alternatives Phrase.dimension).Fills := dimension_filled.list dimension_solid dimension_opens (by decide)
  have items : (Phrase.alternatives Phrase.attributeItem).Fills :=
    attributeItem_filled.list attributeItem_solid attributeItem_opens (by decide)
  have attributes : (do Phrase.symbol "/"; Phrase.alternatives Phrase.attributeItem).Fills :=
    items.behind_symbol (solid_list attributeItem_solid) (attributeItem_opens.list attributeItem_solid) (by decide)
  exact arrays.bind fun arrays => attributes.maybe.bind (sections_filled arrays)

theorem selector_filled : Phrase.selector.Fills := by
  have arrays : (Phrase.alternatives Phrase.dimension).Opens dimensionStart := dimension_opens.list dimension_solid
  exact hyperchunk_filled.list hyperchunk_solid (arrays.bind_solid (solid_list dimension_solid)) (by decide)

end Grammar

end ChunkSelector
