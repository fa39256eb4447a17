import ChunkSelector.Proofs.Expectation

/-!
# Layouts

Tokens can be set with any blanks between them, or with none. `Selector.parse_layout` says that this
makes no difference: no two neighbours in a selector grow together, since none that ends with a digit
or a letter stands in front of one that goes on with it.
-/

namespace ChunkSelector

/-- The terminals in their order, with any blanks before each, and then `after`. Nothing is asked of
what a terminal ends in front of. -/
inductive Layout : List Char → List Terminal → List Char → Prop where
  | nil (text : List Char) : Layout text [] text
  | cons {blanks : List Char} {t : Terminal} {rest : List Char} {ts : List Terminal} {after : List Char}
      (blank : Blank blanks) (more : Layout rest ts after) : Layout (blanks ++ t.text ++ rest) (t :: ts) after

/-- The text is these terminals with any blanks before, between and after them. -/
def LaidOut (text : List Char) (ts : List Terminal) : Prop := ∃ tail, Layout text ts tail ∧ Blank tail

variable {text after : List Char} {ts us : List Terminal}

theorem Spells.layout (h : Spells text ts after) : Layout text ts after := by
  induction h with
  | nil text => exact .nil text
  | cons blank _ _ ih => exact .cons blank ih

theorem Layout.split (h : Layout text (ts ++ us) after) : ∃ mid, Layout text ts mid ∧ Layout mid us after := by
  induction ts generalizing text with
  | nil => exact ⟨text, .nil text, h⟩
  | cons t ts ih =>
    cases h with
    | cons blank more =>
      obtain ⟨mid, left, right⟩ := ih more
      exact ⟨mid, .cons blank left, right⟩

variable {follow : Char → Prop}

/-- The text begins with a blank or with one of certain characters, if it is not empty. -/
def Borders (follow : Char → Prop) (text : List Char) : Prop := ∀ c ∈ text.head?, isBlank c = true ∨ follow c

theorem Layout.borders {t : Terminal} {first : Char} {others : List Char} (h : Layout text (t :: ts) after)
    (begins : t.text = first :: others) (start : follow first) : Borders follow text := by
  cases h with
  | @cons blanks _ _ _ _ blank more =>
    rw [begins]
    intro c member
    cases blanks with
    | nil =>
      obtain rfl : first = c := by simpa using member
      exact .inr start
    | cons b blanks =>
      obtain rfl : b = c := by simpa using member
      exact .inl (blank b (by simp))

theorem laidOut_joined (same : text = ts.flatMap Terminal.text) : LaidOut text ts := by
  refine ⟨[], ?_, blank_nil⟩
  subst same
  induction ts with
  | nil => exact .nil []
  | cons t ts ih => exact .cons blank_nil ih

namespace Phrase

variable {α β : Type} {p q : Phrase α} {starts : Char → Prop}

theorem Opens.borders {t : Terminal} {v : α} (h : p.Opens follow) (read : p (t :: ts) v) (layout : Layout text (t :: ts) after) :
    Borders follow text := by
  obtain ⟨first, others, begins, -, start⟩ := h t ts v read
  exact layout.borders begins start

/-- Terminals of the phrase stay apart however they are set, in front of one of certain characters. -/
def Tight (p : Phrase α) (follow : Char → Prop) : Prop :=
  ∀ ts v text after, p ts v → Layout text ts after → Borders follow after → Spells text ts after

namespace Tight

theorem terminal {kind : Expected} {means : List Char → α → Prop}
    (ends : ∀ text after, Borders follow after → Terminal.EndsBefore ⟨kind, text⟩ after) : (terminal kind means).Tight follow := by
  rintro _ v _ after ⟨text, rfl, -⟩ (_ | ⟨blank, ⟨⟩⟩) borders
  exact .cons blank (ends text after borders) (.nil after)

theorem pure {v : α} : (pure v : Phrase α).Tight follow := by
  rintro _ _ text _ ⟨rfl, -⟩ (_ | _) -
  exact .nil text

theorem bind {next : α → Phrase β} (first : p.Tight follow) (rest : ∀ a, (next a).Tight follow)
    (opens : ∀ a, (next a).Opens follow) : (p >>= next).Tight follow := by
  rintro _ v text after ⟨front, back, a, rfl, head, tail⟩ layout ends
  obtain ⟨mid, left, right⟩ := layout.split
  have border : Borders follow mid := by
    cases back with
    | nil =>
      cases right
      exact ends
    | cons t back => exact (opens a).borders tail right
  exact (first front a text mid head left border).append (rest a back v mid after tail right ends)

theorem bind_solid {next : α → Phrase β} (first : p.Tight starts) (rest : ∀ a, (next a).Tight follow)
    (opens : ∀ a, (next a).Opens starts) (solid : ∀ a, (next a).Solid) : (p >>= next).Tight follow := by
  rintro _ v text after ⟨front, back, a, rfl, head, tail⟩ layout ends
  obtain ⟨mid, left, right⟩ := layout.split
  have border : Borders starts mid := by
    cases back with
    | nil => exact absurd tail (solid a v)
    | cons t back => exact (opens a).borders tail right
  exact (first front a text mid head left border).append (rest a back v mid after tail right ends)

/-- Behind a phrase that stays apart from everything nothing is asked of what comes next. -/
theorem andThen {next : α → Phrase β} (first : p.Tight fun _ => True) (rest : ∀ a, (next a).Tight follow) :
    (p >>= next).Tight follow := by
  rintro _ v text after ⟨front, back, a, rfl, head, tail⟩ layout ends
  obtain ⟨mid, left, right⟩ := layout.split
  exact (first front a text mid head left fun _ _ => .inr trivial).append (rest a back v mid after tail right ends)

theorem map {f : α → β} (h : p.Tight follow) : (f <$> p).Tight follow := by
  intro ts v text after read layout ends
  obtain ⟨a, read, -⟩ := map_iff.mp read
  exact h ts a text after read layout ends

theorem either (left : p.Tight follow) (right : q.Tight follow) : (p.either q).Tight follow := by
  rintro ts v text after (read | read) layout ends
  · exact left ts v text after read layout ends
  · exact right ts v text after read layout ends

theorem maybe (h : p.Tight follow) : p.maybe.Tight follow := .either h.map .pure

theorem many (h : p.Tight follow) (opens : p.Opens follow) : p.many.Tight follow := by
  intro ts v text after read layout ends
  induction read generalizing text with
  | nil =>
    cases layout
    exact .nil after
  | @cons front back a as head tail ih =>
    obtain ⟨mid, left, right⟩ := layout.split
    have border : Borders follow mid := by
      cases back with
      | nil =>
        cases right
        exact ends
      | cons t back => exact opens.many.borders tail right
    exact (h front a text mid head left border).append (ih mid right)

end Tight

end Phrase

/-! ### The grammar is tight -/

namespace Grammar

open Phrase

def notDigit (c : Char) : Prop := c.isDigit = false

theorem noDigit_of_borders {text : List Char} (h : Borders notDigit text) : Lexeme.NoDigit text := by
  intro c member
  rcases h c member with blank | other
  · cases digit : c.isDigit with
    | false => rfl
    | true =>
      rw [Token.isBlank_of_digit digit] at blank
      cases blank
  · exact other

theorem symbol_tight {text : String} : (Phrase.symbol text).Tight follow := .terminal fun _ _ _ => trivial

theorem integer_tight : Phrase.integer.Tight notDigit := .terminal fun _ _ => noDigit_of_borders

theorem float_tight : Phrase.float.Tight notDigit := .terminal fun _ _ => noDigit_of_borders

theorem attributeIndex_tight : Phrase.attributeIndex.Tight notDigit := .terminal fun _ _ => noDigit_of_borders

theorem string_tight : Phrase.string.Tight follow := .terminal fun _ _ _ => trivial

theorem comparator_tight : Phrase.comparator.Tight follow := .terminal fun _ _ _ => trivial

/-- Letters and digits belong to the name, so only the bracket is sure to end it. -/
theorem identifier_tight : Phrase.identifier.Tight (· = '(') := by
  refine .terminal fun text after ends c member => ?_
  rcases ends c member with blank | rfl
  · cases alphanum : c.isAlphanum with
    | false => rfl
    | true =>
      rw [isBlank_of_alphanum alphanum] at blank
      cases blank
  · decide

/-- What begins with a symbol does not begin with a digit. -/
theorem behind_symbol {α : Type} {text : String} {next : Unit → Phrase α} (known : text ∈ Terminal.symbols) :
    (Phrase.symbol text >>= next).Opens notDigit := by
  have plain : ∀ w ∈ Terminal.symbols, w.toList.head?.all (!·.isDigit) = true := by decide
  have starts : ∀ c, Token.symbolStart text c → notDigit c := by
    intro c head
    have first := plain text known
    rw [head] at first
    simpa [notDigit] using first
  exact ((Opens.terminal (Token.symbol_takes known)).weaken starts).bind_solid solid_terminal

theorem list_tight {α : Type} {item : Phrase α} {bar : String} (known : bar ∈ Terminal.symbols) (h : item.Tight notDigit) :
    (Phrase.list (Phrase.symbol bar) item).Tight notDigit := by
  have further : (do Phrase.symbol bar; item : Phrase α).Tight notDigit := symbol_tight.andThen fun _ => h
  exact h.bind (fun _ => (further.many (behind_symbol known)).map) fun _ => (behind_symbol known).many.map

theorem slice_tight : Phrase.slice.Tight notDigit := by
  have step : Tight (do Phrase.symbol ":"; Phrase.integer.maybe) notDigit := symbol_tight.andThen fun _ => integer_tight.maybe
  refine integer_tight.maybe.bind (fun _ => ?_) fun _ => behind_symbol (by decide)
  refine symbol_tight.andThen fun _ => ?_
  exact integer_tight.maybe.bind (fun _ => step.maybe.map) fun _ => (behind_symbol (by decide)).maybe.map

theorem dimension_tight : Phrase.dimension.Tight notDigit :=
  slice_tight.map.either ((symbol_tight.andThen fun _ => .pure).either integer_tight.map)

theorem number_tight : Phrase.number.Tight notDigit := float_tight.map.either integer_tight.map

theorem literal_tight : Phrase.literal.Tight notDigit := number_tight.map.either string_tight.map

theorem comparison_tight : Phrase.comparison.Tight notDigit := by
  have plain : ∀ c ∈ ['=', '!', '<', '>'], c.isDigit = false := by decide
  have opens : Phrase.comparator.Opens notDigit := (Opens.terminal Token.comparator_takes).weaken plain
  exact attributeIndex_tight.bind (fun _ => comparator_tight.andThen fun _ => literal_tight.map)
    fun _ => opens.bind_solid solid_terminal

theorem chain_tight {operand : Phrase Condition} (connective : Connective) (h : operand.Tight notDigit) :
    (Phrase.chain connective operand).Tight notDigit := by
  cases connective with
  | and => exact (list_tight (by decide) h).map
  | or => exact (list_tight (by decide) h).map

theorem condition_tight : Phrase.condition.Tight notDigit := chain_tight .or (chain_tight .and comparison_tight.map)

theorem argument_tight : Phrase.argument.Tight notDigit :=
  attributeIndex_tight.map.either (string_tight.map.either number_tight.map)

theorem call_tight : Phrase.call.Tight notDigit := by
  have opening : (Phrase.symbol "(").Opens (· = '(') := symbol_opens (by decide) rfl
  refine identifier_tight.bind_solid (fun _ => ?_) (fun _ => opening.bind_solid solid_terminal) fun _ => solid_bind_left solid_terminal
  refine symbol_tight.andThen fun _ => ?_
  exact (list_tight (by decide) argument_tight).maybe.bind (fun _ => symbol_tight.andThen fun _ => .pure)
    fun _ => behind_symbol (by decide)

theorem attributeItem_tight : Phrase.attributeItem.Tight notDigit :=
  condition_tight.map.either (call_tight.map.either (attributeIndex_tight.map.either dimension_tight.map))

theorem alternatives_tight {α : Type} {item : Phrase α} (h : item.Tight notDigit) : (Phrase.alternatives item).Tight notDigit :=
  list_tight (by decide) h

theorem sections_tight (arrays : List Dimension) (attributes : Option (List Attribute)) :
    (Phrase.sections arrays attributes).Tight notDigit := by
  cases attributes with
  | none => exact .pure
  | some attributes =>
    have order : Tight (do Phrase.symbol "/"; Phrase.symbol "order:"; Phrase.call) notDigit :=
      symbol_tight.andThen fun _ => symbol_tight.andThen fun _ => call_tight
    have hyperslices : Tight (do Phrase.symbol "/"; Phrase.alternatives Phrase.hyperslice) notDigit :=
      symbol_tight.andThen fun _ => alternatives_tight (list_tight (by decide) dimension_tight)
    exact order.maybe.bind (fun _ => hyperslices.maybe.map) fun _ => (behind_symbol (by decide)).maybe.map

theorem hyperchunk_tight : Phrase.hyperchunk.Tight notDigit := by
  have attributes : Tight (do Phrase.symbol "/"; Phrase.alternatives Phrase.attributeItem) notDigit :=
    symbol_tight.andThen fun _ => alternatives_tight attributeItem_tight
  have slash : ∀ ch, ch = '/' → notDigit ch := by
    rintro _ rfl
    exact (by decide : Char.isDigit '/' = false)
  refine (alternatives_tight dimension_tight).bind (fun arrays => ?_) fun arrays => ?_
  · exact attributes.maybe.bind (sections_tight arrays) fun given => (sections_opens arrays given).weaken slash
  · exact (behind_symbol (by decide)).maybe.bind fun given => (sections_opens arrays given).weaken slash

theorem selector_tight : Phrase.selector.Tight notDigit := list_tight (by decide) hyperchunk_tight

end Grammar

namespace Selector

/-- A layout of a selector's terminals spells them. -/
theorem Reads.relay {text text' : List Char} {ts : List Terminal} {selector : Selector} (reads : Reads text ts selector)
    (laid : LaidOut text' ts) : Reads text' ts selector := by
  obtain ⟨_, -, -, read⟩ := reads
  obtain ⟨tail, layout, blank⟩ := laid
  have border : Borders Grammar.notDigit tail := fun c member => .inl (blank c (List.mem_of_mem_head? member))
  exact ⟨tail, Grammar.selector_tight ts selector text' tail read layout border, blank, read⟩

/-- An accepted text is a layout of the tokens it reads as, and any other layout of them is accepted
with the same selector. -/
theorem parse_layout {text : String} {selector : Selector} (accepted : parse text = .ok selector) :
    (∃ ts, Reads text.toList ts selector) ∧ ∀ ts, Reads text.toList ts selector →
      LaidOut text.toList ts ∧ ∀ text' : String, LaidOut text'.toList ts → parse text' = .ok selector := by
  refine ⟨parse_eq_ok_iff.mp accepted, fun ts reads => ⟨?_, fun text' laid => ?_⟩⟩
  · obtain ⟨tail, spelled, blank, -⟩ := reads
    exact ⟨tail, spelled.layout, blank⟩
  · exact parse_eq_ok_iff.mpr ⟨ts, reads.relay laid⟩

theorem parse_layout_of_call : parse " 0 / a0 ( )" = .ok [⟨[.index 0], some [.call ⟨"a0", []⟩], none, none⟩] ∧
    parse "0/a0()" = .ok [⟨[.index 0], some [.call ⟨"a0", []⟩], none, none⟩] := by
  have accepted : parse " 0 / a0 ( )" = .ok [⟨[.index 0], some [.call ⟨"a0", []⟩], none, none⟩] := by rfl
  have array : Phrase.dimension [⟨.token .integer, ['0']⟩] (.index 0) :=
    .inr (.inr (Phrase.map_iff.mpr ⟨0, ⟨_, rfl, .zero, by decide⟩, rfl⟩))
  have call : Phrase.call [⟨.token .identifier, ['a', '0']⟩, ⟨.symbol "(", ['(']⟩, ⟨.symbol ")", [')']⟩] ⟨"a0", []⟩ := by
    refine ⟨[_], _, "a0", rfl, ⟨_, rfl, .mk (by decide) (by decide), rfl⟩, [_], _, (), rfl, ⟨_, rfl, rfl⟩, ?_⟩
    exact ⟨[], _, none, rfl, Phrase.maybe_none_iff.mpr rfl, [_], [], (), rfl, ⟨_, rfl, rfl⟩, rfl, rfl⟩
  obtain ⟨ts, apart, joined, read⟩ : ∃ ts, spaced ts = " 0 / a0 ( )".toList ∧ "0/a0()".toList = ts.flatMap Terminal.text ∧
      Phrase.selector ts [⟨[.index 0], some [.call ⟨"a0", []⟩], none, none⟩] := by
    refine ⟨[⟨.token .integer, ['0']⟩, ⟨.symbol "/", ['/']⟩, ⟨.token .identifier, ['a', '0']⟩, ⟨.symbol "(", ['(']⟩,
      ⟨.symbol ")", [')']⟩], by decide, by decide, _, [], _, (List.append_nil _).symm, ?_, [], [], [], rfl, .nil, rfl, rfl⟩
    refine ⟨[_], _, [.index 0], rfl, ⟨[_], [], _, rfl, array, [], [], [], rfl, .nil, rfl, rfl⟩, _, [],
      some [.call ⟨"a0", []⟩], (List.append_nil _).symm, Phrase.maybe_some_iff.mpr ?_, ?_⟩
    · refine ⟨[_], _, (), rfl, ⟨_, rfl, rfl⟩, _, [], _, (List.append_nil _).symm, ?_, [], [], [], rfl, .nil, rfl, rfl⟩
      exact .inr (.inl (Phrase.map_iff.mpr ⟨_, call, rfl⟩))
    · exact ⟨[], [], none, rfl, Phrase.maybe_none_iff.mpr rfl, [], [], none, rfl, Phrase.maybe_none_iff.mpr rfl, rfl, rfl⟩
  have reads : Reads " 0 / a0 ( )".toList ts [⟨[.index 0], some [.call ⟨"a0", []⟩], none, none⟩] :=
    ⟨[], apart ▸ spells_spaced ts, blank_nil, read⟩
  exact ⟨accepted, ((parse_layout accepted).2 ts reads).2 "0/a0()" (laidOut_joined joined)⟩

end Selector

end ChunkSelector
