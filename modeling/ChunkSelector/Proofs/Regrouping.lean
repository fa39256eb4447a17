import ChunkSelector.Proofs.Precedence

/-!
# Regrouping

A condition nested in any way is written without its nesting, as its comparisons with the connectives in
front of them. Some groups are written in the same way, so it is these that are read back:
`Attribute.parse_regroups` says that nothing changes exactly where the condition was in groups before.
-/

namespace ChunkSelector

/-! ### Conditions in a row -/

/-- A comparison, and the connective in front of it. -/
structure Link where
  connective : Connective
  test : Comparison

def Link.text (link : Link) : List Char := link.connective.spaced ++ link.test.canonical

namespace Condition

mutual

/-- The comparisons in their order. The first has `lead` in front of it. -/
def links (lead : Connective) : Condition → List Link
  | .comparison test => [⟨lead, test⟩]
  | .chain connective operands => linksAll lead connective operands

def linksAll (lead connective : Connective) : List Condition → List Link
  | [] => []
  | first :: more => first.links lead ++ linksAll connective connective more

end

/-- Every chain has an operand, and every float is finite. -/
inductive Writable : Condition → Prop where
  | comparison {test : Comparison} (finite : test.WellFormed) : Writable (.comparison test)
  | chain {connective : Connective} {operands : List Condition} (some : operands ≠ []) (each : ∀ c ∈ operands, Writable c) :
      Writable (.chain connective operands)

theorem linksAll_eq (connective : Connective) (operands : List Condition) :
    linksAll connective connective operands = operands.flatMap (links connective) := by
  induction operands with
  | nil => rfl
  | cons first more ih => rw [linksAll, ih, List.flatMap_cons]

/-- A condition is written as its comparisons one after the other, whatever its shape. -/
theorem Writable.canonical_eq {c : Condition} (h : c.Writable) (lead : Connective) :
    lead.spaced ++ c.canonical = (c.links lead).flatMap Link.text := by
  induction h generalizing lead with
  | comparison _ => simp [links, canonical, Link.text]
  | @chain connective operands some _ ih =>
    obtain ⟨first, more, rfl⟩ := List.exists_cons_of_ne_nil some
    have others : (more.map canonical).flatMap (connective.spaced ++ ·) = (more.flatMap (links connective)).flatMap Link.text := by
      rw [List.flatMap_map, List.flatMap_assoc]
      exact List.flatMap_congr fun c member => ih c (List.mem_cons_of_mem _ member) connective
    calc lead.spaced ++ (Condition.chain connective (first :: more)).canonical
        = lead.spaced ++ first.canonical ++ (more.map canonical).flatMap (connective.spaced ++ ·) := by
          rw [canonical, canonicalAll_eq_map, List.map_cons, Phrase.Writes.intercalate_cons, List.append_assoc]
          rfl
      _ = (first.links lead ++ more.flatMap (links connective)).flatMap Link.text := by
          rw [ih first List.mem_cons_self lead, others, List.flatMap_append]
      _ = ((Condition.chain connective (first :: more)).links lead).flatMap Link.text := by
          rw [links, linksAll, linksAll_eq]

theorem Writable.exists_links {c : Condition} (h : c.Writable) (lead : Connective) :
    ∃ first more, c.links lead = ⟨lead, first⟩ :: more ∧ ∀ link ∈ c.links lead, link.test.WellFormed := by
  induction h generalizing lead with
  | comparison finite => exact ⟨_, [], by rw [links], by simpa [links] using finite⟩
  | @chain connective operands some _ ih =>
    obtain ⟨first, more, rfl⟩ := List.exists_cons_of_ne_nil some
    obtain ⟨test, back, same, good⟩ := ih first List.mem_cons_self lead
    rw [links, linksAll, linksAll_eq]
    refine ⟨test, back ++ more.flatMap (links connective), by rw [same]; rfl, fun link member => ?_⟩
    rcases List.mem_append.mp member with front | behind
    · exact good link front
    · obtain ⟨c, inside, member⟩ := List.mem_flatMap.mp behind
      obtain ⟨_, _, _, good⟩ := ih c (List.mem_cons_of_mem _ inside) connective
      exact good link member

end Condition

namespace Groups

/-- A comparison in front: `and` adds it to the first group, `or` sets it apart. -/
def cons (test : Comparison) : Connective → Groups → Groups
  | .and, groups => ⟨⟨test, groups.first.toList⟩, groups.more⟩
  | .or, groups => ⟨⟨test, []⟩, groups.toList⟩

def ofLinks (first : Comparison) : List Link → Groups
  | [] => ⟨⟨first, []⟩, []⟩
  | next :: more => cons first next.connective (ofLinks next.test more)

theorem text_cons (test : Comparison) (connective : Connective) (groups : Groups) :
    (cons test connective groups).text = test.canonical ++ (connective.spaced ++ groups.text) := by
  cases connective with
  | and =>
    simp only [cons, text, Operands.toList, List.map_cons, Phrase.Writes.intercalate_cons, List.flatMap_cons,
      List.append_assoc]
    rfl
  | or =>
    simp only [cons, text, Operands.toList, List.map_cons, List.map_nil, List.intercalate_cons_cons, List.intercalate_singleton,
      List.append_assoc]
    rfl

theorem finite_cons {test : Comparison} {groups : Groups} (connective : Connective) (good : test.WellFormed)
    (finite : groups.Finite) : (cons test connective groups).Finite := by
  cases connective with
  | and =>
    intro tests member other inside
    rcases List.mem_cons.mp member with rfl | behind
    · rcases List.mem_cons.mp inside with rfl | inside
      · exact good
      · exact finite groups.first List.mem_cons_self other inside
    · exact finite tests (List.mem_cons_of_mem _ behind) other inside
  | or =>
    intro tests member other inside
    rcases List.mem_cons.mp member with rfl | behind
    · obtain rfl := List.mem_singleton.mp inside
      exact good
    · exact finite tests behind other inside

theorem text_ofLinks (first : Comparison) (more : List Link) :
    (ofLinks first more).text = first.canonical ++ more.flatMap Link.text := by
  induction more generalizing first with
  | nil => simp only [ofLinks, text, Operands.toList, List.map_cons, List.map_nil, List.intercalate_singleton, List.flatMap_nil, List.append_nil]
  | cons next more ih => rw [ofLinks, text_cons, ih, List.flatMap_cons, Link.text, List.append_assoc]

theorem finite_ofLinks {first : Comparison} {more : List Link} (good : first.WellFormed)
    (others : ∀ link ∈ more, link.test.WellFormed) : (ofLinks first more).Finite := by
  induction more generalizing first with
  | nil =>
    intro tests member other inside
    obtain rfl := List.mem_singleton.mp member
    obtain rfl := List.mem_singleton.mp inside
    exact good
  | cons next more ih =>
    have behind := ih (others next List.mem_cons_self) fun link member => others link (List.mem_cons_of_mem _ member)
    exact finite_cons next.connective good behind

end Groups

/-- A condition of any shape is written as some groups are. -/
theorem Condition.Writable.exists_groups {c : Condition} (h : c.Writable) :
    ∃ groups : Groups, groups.Finite ∧ groups.text = c.canonical := by
  obtain ⟨first, more, same, good⟩ := h.exists_links .or
  have written := h.canonical_eq .or
  rw [same] at good written
  refine ⟨.ofLinks first more, ?_, ?_⟩
  · exact Groups.finite_ofLinks (good _ List.mem_cons_self) fun link member => good link (List.mem_cons_of_mem _ member)
  · rw [Groups.text_ofLinks]
    rw [List.flatMap_cons, Link.text, List.append_assoc] at written
    exact (List.append_cancel_left written).symm

/-! ### Conditions that compare equal -/

theorem Number.beq_self {n : Number} (finite : n.WellFormed) : (n == n) = true := by
  cases n with
  | int n => exact beq_self_eq_true n
  | float x =>
    have inside : (x.biased == 2047) = false := (Bool.not_eq_true' _).mp finite
    have number : x.isNaN = false := by rw [Binary64.isNaN, inside, Bool.false_and]
    show x.sameNumber x = true
    simp [Binary64.sameNumber, number]

theorem Comparison.beq_self {test : Comparison} (finite : test.WellFormed) : (test == test) = true := by
  have value : (test.value == test.value) = true := by
    obtain ⟨_, _, value⟩ := test
    cases value with
    | number n => exact Number.beq_self finite
    | string s => exact beq_self_eq_true s
  show (test.index == test.index && (test.comparator == test.comparator && test.value == test.value)) = true
  simp [value]

namespace Condition

theorem sameAll_self {operands : List Condition} (each : ∀ c ∈ operands, (c == c) = true) : sameAll operands operands = true := by
  induction operands with
  | nil => rfl
  | cons first more ih =>
    rw [sameAll, Bool.and_eq_true]
    exact ⟨each first List.mem_cons_self, ih fun c member => each c (List.mem_cons_of_mem _ member)⟩

theorem Writable.beq_self {c : Condition} (h : c.Writable) : (c == c) = true := by
  induction h with
  | comparison finite => exact Comparison.beq_self finite
  | @chain connective operands _ _ ih =>
    show (connective == connective && sameAll operands operands) = true
    rw [sameAll_self ih, beq_self_eq_true, Bool.and_self]

theorem of_sameAll {xs ys : List Condition} (h : sameAll xs ys = true) :
    xs.length = ys.length ∧ ∀ y ∈ ys, ∃ x ∈ xs, (x == y) = true := by
  induction xs generalizing ys with
  | nil =>
    cases ys with
    | nil => simp
    | cons y ys => cases h
  | cons x xs ih =>
    cases ys with
    | nil => cases h
    | cons y ys =>
      rw [sameAll, Bool.and_eq_true] at h
      obtain ⟨length, found⟩ := ih h.2
      refine ⟨congrArg (· + 1) length, fun z member => ?_⟩
      rcases List.mem_cons.mp member with rfl | member
      · exact ⟨x, List.mem_cons_self, h.1⟩
      · obtain ⟨w, inside, same⟩ := found z member
        exact ⟨w, List.mem_cons_of_mem _ inside, same⟩

theorem comparison_of_beq {test : Comparison} {c : Condition} (same : (Condition.comparison test == c) = true) :
    c ∈ Set.range Condition.comparison := by
  cases c with
  | comparison other => exact ⟨other, rfl⟩
  | chain connective operands => cases same

theorem chain_of_beq {connective : Connective} {operands : List Condition} {c : Condition}
    (same : (Condition.chain connective operands == c) = true) :
    ∃ others, c = .chain connective others ∧ operands.length = others.length ∧ ∀ o ∈ others, ∃ x ∈ operands, (x == o) = true := by
  cases c with
  | comparison other => cases same
  | chain d others =>
    have both : (connective == d && sameAll operands others) = true := same
    rw [Bool.and_eq_true, beq_iff_eq] at both
    obtain ⟨rfl, all⟩ := both
    exact ⟨others, rfl, of_sameAll all⟩

theorem Conjunction.of_beq {a b : Condition} (h : a.Conjunction) (same : (a == b) = true) (writable : b.Writable) :
    b.Conjunction := by
  cases h with
  | comparison _ =>
    obtain ⟨other, rfl⟩ := comparison_of_beq same
    cases writable with
    | comparison finite => exact .comparison finite
  | @chain tests several _ =>
    obtain ⟨others, rfl, length, found⟩ := chain_of_beq same
    have shaped : others ∈ Set.range (List.map Condition.comparison) := by
      rw [Set.range_list_map]
      intro o member
      obtain ⟨_, inside, same⟩ := found o member
      obtain ⟨test, -, rfl⟩ := List.mem_map.mp inside
      exact comparison_of_beq same
    obtain ⟨others, rfl⟩ := shaped
    cases writable with
    | chain _ each =>
      rw [List.length_map, List.length_map] at length
      refine .chain (length ▸ several) fun test member => ?_
      cases each _ (List.mem_map_of_mem member) with
      | comparison finite => exact finite

/-- The test `==` does not tell apart all conditions, but it does tell apart their shapes. -/
theorem WellFormed.of_beq {a b : Condition} (h : a.WellFormed) (same : (a == b) = true) (writable : b.Writable) :
    b.WellFormed := by
  cases h with
  | conjunction good => exact .conjunction (good.of_beq same writable)
  | chain several good =>
    obtain ⟨others, rfl, length, found⟩ := chain_of_beq same
    cases writable with
    | chain _ each =>
      refine .chain (length ▸ several) fun c member => ?_
      obtain ⟨o, inside, same⟩ := found c member
      exact (good o inside).of_beq same (each c member)

end Condition

namespace Attribute

theorem wellFormed_of_parse {text : List Char} {a : Attribute} (h : parse (.ofList text) = .ok a) : a.WellFormed := by
  obtain ⟨ts, -, read⟩ := parse_eq_ok_iff.mp h
  exact Phrase.attributeItem_wellFormed read

/-- A condition of any shape comes back as one in groups that is written in the same way. It comes back as it was exactly if it
was in groups, whether compared by `=` or by `==`. -/
theorem parse_regroups (c : Condition) (writable : c.Writable) :
    ∃ c', parse (.ofList c.canonical) = .ok (.condition c') ∧ c'.WellFormed ∧ c'.canonical = c.canonical ∧
      (c' = c ↔ c.WellFormed) ∧ ((c' == c) = true ↔ c.WellFormed) := by
  obtain ⟨groups, finite, written⟩ := writable.exists_groups
  have parsed : parse (.ofList c.canonical) = .ok (.condition groups.condition) := written ▸ parse_text_of_groups finite
  have shaped : groups.condition.WellFormed := wellFormed_of_parse parsed
  have unchanged : c.WellFormed → groups.condition = c := by
    intro good
    have same := parsed.symm.trans (parse_canonical (a := .condition c) good)
    exact Attribute.condition.inj (Except.ok.inj same)
  refine ⟨groups.condition, parsed, shaped, groups.canonical_condition.trans written, ⟨fun same => same ▸ shaped, unchanged⟩,
    ⟨fun same => shaped.of_beq same writable, fun good => ?_⟩⟩
  rw [unchanged good]
  exact writable.beq_self

/-- An `or` within an `and` comes back as an `and` within an `or`. -/
theorem parse_regroups_of_inner_or : ∃ c', parse "a0 < 1 or a1 < 2 and a2 < 3" = .ok (.condition c') ∧ c'.WellFormed ∧
    c' ≠ .chain .and [.chain .or [.comparison ⟨0, .less, .number (.int 1)⟩, .comparison ⟨1, .less, .number (.int 2)⟩],
      .comparison ⟨2, .less, .number (.int 3)⟩] := by
  obtain ⟨c, same⟩ : ∃ c : Condition, c = .chain .and [.chain .or [.comparison ⟨0, .less, .number (.int 1)⟩,
      .comparison ⟨1, .less, .number (.int 2)⟩], .comparison ⟨2, .less, .number (.int 3)⟩] := ⟨_, rfl⟩
  have text : .ofList c.canonical = "a0 < 1 or a1 < 2 and a2 < 3" := by
    rw [same]
    decide
  have writable : c.Writable := by
    rw [same]
    refine .chain (by simp) fun o member => ?_
    simp only [List.mem_cons, List.not_mem_nil, or_false] at member
    rcases member with rfl | rfl
    · refine .chain (by simp) fun o member => ?_
      simp only [List.mem_cons, List.not_mem_nil, or_false] at member
      rcases member with rfl | rfl <;> exact .comparison trivial
    · exact .comparison trivial
  have other : ¬ c.WellFormed := by
    rintro (good | _)
    · cases good with
      | comparison _ => cases same
      | chain _ _ =>
        have inside := List.mem_of_mem_head? (congrArg List.head? (Condition.chain.inj same).2)
        obtain ⟨_, -, again⟩ := List.mem_map.mp inside
        cases again
    · cases same
  obtain ⟨c', parsed, shaped, -, unchanged, -⟩ := parse_regroups c writable
  rw [← same, ← text]
  exact ⟨c', parsed, shaped, fun back => other (unchanged.mp back)⟩

end Attribute

end ChunkSelector
