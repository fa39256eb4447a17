import ChunkSelector.Proofs.Acceptance

/-!
# Well-formed selectors

Selectors without an empty list where there has to be an item, without a section that needs
attributes where there are none, with names and numbers that can be written, and with conditions in
groups of `and` that are joined by `or`. `Selector.parse_wellFormed`: every accepted text stands for
such a selector.
-/

namespace ChunkSelector

/-! ### What is well formed -/

def Number.WellFormed : Number → Prop
  | .int _ => True
  | .float x => x.isFinite = true

def Literal.WellFormed : Literal → Prop
  | .number n => n.WellFormed
  | .string _ => True

def Comparison.WellFormed (c : Comparison) : Prop := c.value.WellFormed

namespace Condition

/-- A comparison, or two and more joined by `and`. -/
inductive Conjunction : Condition → Prop where
  | comparison {test : Comparison} (good : test.WellFormed) : Conjunction (.comparison test)
  | chain {tests : List Comparison} (several : 2 ≤ tests.length) (good : ∀ test ∈ tests, test.WellFormed) :
      Conjunction (.chain .and (tests.map .comparison))

/-- A conjunction, or two and more joined by `or`. -/
inductive WellFormed : Condition → Prop where
  | conjunction {c : Condition} (good : Conjunction c) : WellFormed c
  | chain {operands : List Condition} (several : 2 ≤ operands.length) (good : ∀ c ∈ operands, Conjunction c) :
      WellFormed (.chain .or operands)

end Condition

def Argument.WellFormed : Argument → Prop
  | .index _ | .string _ => True
  | .number n => n.WellFormed

/-- The name is a letter followed by letters and digits. -/
structure Call.WellFormed (c : Call) : Prop where
  name : Lexeme.IsIdentifier c.name.toList
  arguments : ∀ a ∈ c.arguments, a.WellFormed

def Attribute.WellFormed : Attribute → Prop
  | .condition filter => filter.WellFormed
  | .call function => function.WellFormed
  | .index _ | .dimension _ => True

/-- A section that is written has an alternative, and only attributes can stand alone. -/
structure Hyperchunk.WellFormed (h : Hyperchunk) : Prop where
  arrays : h.arrays ≠ []
  attributes : ∀ items ∈ h.attributes, items ≠ [] ∧ ∀ item ∈ items, item.WellFormed
  order : ∀ call ∈ h.order, h.attributes ≠ none ∧ call.WellFormed
  hyperslices : ∀ items ∈ h.hyperslices, h.attributes ≠ none ∧ items ≠ [] ∧ ∀ item ∈ items, item ≠ []

structure Selector.WellFormed (s : Selector) : Prop where
  some : s ≠ []
  clauses : ∀ h ∈ s, h.WellFormed

/-! ### What phrases stand for -/

namespace Phrase

variable {α : Type} {p : Phrase α} {ts : List Terminal}

theorem reads_of_many {vs : List α} (h : p.many ts vs) : ∀ v ∈ vs, ∃ us, p us v := by
  induction h with
  | nil => simp
  | cons head _ ih =>
    intro v member
    rcases List.mem_cons.mp member with rfl | member
    · exact ⟨_, head⟩
    · exact ih v member

theorem reads_of_list {bar : Phrase Unit} {vs : List α} (h : list bar p ts vs) : vs ≠ [] ∧ ∀ v ∈ vs, ∃ us, p us v := by
  obtain ⟨first, _, a, rfl, head, more, _, as, rfl, tail, rfl, rfl⟩ := h
  refine ⟨by simp, ?_⟩
  intro v member
  rcases List.mem_cons.mp member with rfl | member
  · exact ⟨first, head⟩
  · obtain ⟨_, _, more, _, _, -, read⟩ := reads_of_many tail v member
    exact ⟨more, read⟩

theorem number_wellFormed {n : Number} (h : number ts n) : n.WellFormed := by
  rcases h with read | read
  · obtain ⟨x, ⟨text, rfl, -, -, finite⟩, rfl⟩ := map_iff.mp read
    exact finite
  · obtain ⟨_, _, rfl⟩ := map_iff.mp read
    trivial

theorem literal_wellFormed {l : Literal} (h : literal ts l) : l.WellFormed := by
  rcases h with read | read
  · obtain ⟨n, inner, rfl⟩ := map_iff.mp read
    exact number_wellFormed inner
  · obtain ⟨_, _, rfl⟩ := map_iff.mp read
    trivial

theorem comparison_wellFormed {c : Comparison} (h : comparison ts c) : c.WellFormed := by
  obtain ⟨_, _, _, rfl, -, _, _, _, rfl, -, _, _, _, rfl, read, rfl, rfl⟩ := h
  exact literal_wellFormed read

theorem chain_cases {connective : Connective} {operand : Phrase Condition} {c : Condition}
    (h : chain connective operand ts c) : (∃ us, operand us c) ∨
      ∃ operands : List Condition, c = .chain connective operands ∧ 2 ≤ operands.length ∧ ∀ o ∈ operands, ∃ us, operand us o := by
  obtain ⟨operands, read, rfl⟩ := map_iff.mp h
  obtain ⟨some, all⟩ := reads_of_list read
  match operands, some with
  | [only], _ => exact .inl (all only (by simp))
  | first :: second :: more, _ => exact .inr ⟨_, rfl, by simp, all⟩

theorem conjunction_wellFormed {c : Condition} (h : chain .and (.comparison <$> comparison) ts c) : c.Conjunction := by
  rcases chain_cases h with ⟨us, read⟩ | ⟨operands, rfl, several, all⟩
  · obtain ⟨test, inner, rfl⟩ := map_iff.mp read
    exact .comparison (comparison_wellFormed inner)
  · have tests : ∃ tests : List Comparison, operands = tests.map .comparison ∧ ∀ test ∈ tests, test.WellFormed := by
      clear several h
      induction operands with
      | nil => exact ⟨[], rfl, by simp⟩
      | cons first more ih =>
        obtain ⟨us, read⟩ := all first (by simp)
        obtain ⟨test, inner, rfl⟩ := map_iff.mp read
        obtain ⟨tests, rfl, good⟩ := ih fun o member => all o (by simp [member])
        exact ⟨test :: tests, rfl, by simpa using ⟨comparison_wellFormed inner, good⟩⟩
    obtain ⟨tests, rfl, good⟩ := tests
    exact .chain (by simpa using several) good

theorem condition_wellFormed {c : Condition} (h : condition ts c) : c.WellFormed := by
  rcases chain_cases h with ⟨us, read⟩ | ⟨operands, rfl, several, all⟩
  · exact .conjunction (conjunction_wellFormed read)
  · refine .chain several fun c member => ?_
    obtain ⟨us, read⟩ := all c member
    exact conjunction_wellFormed read

theorem argument_wellFormed {a : Argument} (h : argument ts a) : a.WellFormed := by
  rcases h with read | read | read
  · obtain ⟨_, _, rfl⟩ := map_iff.mp read
    trivial
  · obtain ⟨_, _, rfl⟩ := map_iff.mp read
    trivial
  · obtain ⟨n, inner, rfl⟩ := map_iff.mp read
    exact number_wellFormed inner

theorem call_wellFormed {c : Call} (h : call ts c) : c.WellFormed := by
  obtain ⟨_, _, name, rfl, ⟨text, rfl, form, rfl⟩, _, _, _, rfl, -, _, _, arguments, rfl, read, _, _, _, rfl, -, rfl, rfl⟩ := h
  refine ⟨by simpa using form, ?_⟩
  rcases maybe_iff.mp read with ⟨items, inner, rfl⟩ | ⟨-, rfl⟩
  · intro a member
    obtain ⟨us, each⟩ := (reads_of_list inner).2 a member
    exact argument_wellFormed each
  · simp

theorem attributeItem_wellFormed {a : Attribute} (h : attributeItem ts a) : a.WellFormed := by
  rcases h with read | read | read | read
  · obtain ⟨_, inner, rfl⟩ := map_iff.mp read
    exact condition_wellFormed inner
  · obtain ⟨_, inner, rfl⟩ := map_iff.mp read
    exact call_wellFormed inner
  · obtain ⟨_, _, rfl⟩ := map_iff.mp read
    trivial
  · obtain ⟨_, _, rfl⟩ := map_iff.mp read
    trivial

theorem behind_slash {α : Type} {p : Phrase α} {ts : List Terminal} {v : Option α}
    (h : maybe (do symbol "/"; p) ts v) : ∀ a ∈ v, ∃ us, p us a := by
  rcases maybe_iff.mp h with ⟨a, ⟨_, us, _, _, _, read⟩, rfl⟩ | ⟨-, rfl⟩
  · rintro _ ⟨⟩
    exact ⟨us, read⟩
  · simp

theorem hyperchunk_wellFormed {h : Hyperchunk} (read : hyperchunk ts h) : h.WellFormed := by
  obtain ⟨_, _, arrays, rfl, first, _, _, attributes, rfl, second, rest⟩ := read
  have arrays_some := (reads_of_list first).1
  cases attributes with
  | none =>
    obtain ⟨rfl, rfl⟩ := rest
    exact ⟨arrays_some, by simp, by simp, by simp⟩
  | some attributes =>
    obtain ⟨_, _, order, rfl, third, _, _, hyperslices, rfl, fourth, rfl, rfl⟩ := rest
    refine ⟨arrays_some, fun items member => ?_, fun call member => ?_, fun items member => ?_⟩
    · obtain ⟨us, read⟩ := behind_slash second items member
      obtain ⟨some, all⟩ := reads_of_list read
      refine ⟨some, fun item member => ?_⟩
      obtain ⟨us, each⟩ := all item member
      exact attributeItem_wellFormed each
    · obtain ⟨_, _, us, _, _, _, read⟩ := behind_slash third call member
      exact ⟨by simp, call_wellFormed read⟩
    · obtain ⟨us, read⟩ := behind_slash fourth items member
      obtain ⟨some, all⟩ := reads_of_list read
      refine ⟨by simp, some, fun item member => ?_⟩
      obtain ⟨us, each⟩ := all item member
      exact (reads_of_list each).1

theorem selector_wellFormed {s : Selector} (read : selector ts s) : s.WellFormed := by
  obtain ⟨some, all⟩ := reads_of_list read
  refine ⟨some, fun h member => ?_⟩
  obtain ⟨us, read⟩ := all h member
  exact hyperchunk_wellFormed read

end Phrase

namespace Selector

theorem wellFormed_of_derives {text : String} {s : Selector} (h : Derives text s) : s.WellFormed := by
  obtain ⟨ts, tail, -, -, read⟩ := h
  exact Phrase.selector_wellFormed read

/-- Every accepted text stands for a well-formed selector. -/
theorem parse_wellFormed {text : String} {s : Selector} (h : parse text = .ok s) : s.WellFormed :=
  wellFormed_of_derives (parse_eq_ok_iff.mp h)

set_option maxRecDepth 4096 in
theorem parse_wellFormed_of_chain : ∃ s, parse "1:/a0<2 or a1<3;..." = .ok s ∧ s.WellFormed := by
  have accepted : parse "1:/a0<2 or a1<3;..." = .ok [⟨[.slice ⟨some 1, none, none⟩], some [.condition (.chain .or
      [.comparison ⟨0, .less, .number (.int 2)⟩, .comparison ⟨1, .less, .number (.int 3)⟩])], none, none⟩,
      ⟨[.ellipsis], none, none, none⟩] := by rfl
  exact ⟨_, accepted, parse_wellFormed accepted⟩

end Selector

end ChunkSelector
