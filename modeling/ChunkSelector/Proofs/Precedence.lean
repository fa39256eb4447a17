import ChunkSelector.Proofs.Layout
import ChunkSelector.Proofs.Pieces
import ChunkSelector.Proofs.RoundTrip

/-!
# Precedence

Without parentheses a condition is written as groups of comparisons: `and` within a group, `or` between
groups. `Attribute.parse_groups` says that reading such a text makes of the groups what the builders
`Condition.and` and `Condition.or` make of them from the left.
-/

namespace ChunkSelector

/-- One item, and those after it. -/
structure Operands (α : Type) where
  first : α
  more : List α

namespace Operands

variable {α β : Type}

def toList (xs : Operands α) : List α := xs.first :: xs.more

def map (f : α → β) (xs : Operands α) : Operands β := ⟨f xs.first, xs.more.map f⟩

/-- All operands put together, from the left. -/
def build (join : α → α → α) (xs : Operands α) : α := xs.more.foldl join xs.first

end Operands

/-! ### Builders and chains -/

namespace Condition

variable {connective : Connective}

theorem foldl_join (operands more : List Condition) :
    more.foldl (join connective) (.chain connective operands) = .chain connective (operands ++ more) := by
  induction more generalizing operands with
  | nil => rw [List.foldl_nil, List.append_nil]
  | cons next more ih =>
    have grown : join connective (.chain connective operands) next = .chain connective (operands ++ [next]) := by
      simp [join]
    rw [List.foldl_cons, grown, ih, List.append_assoc, List.singleton_append]

/-- Joining from the left collects the operands in one chain, unless the first is itself such a chain. -/
theorem build_join {xs : Operands Condition} (other : ∀ operands, xs.first ≠ .chain connective operands) :
    xs.build (join connective) = ofOperands connective xs.toList := by
  obtain ⟨first, more⟩ := xs
  cases more with
  | nil => rfl
  | cons second more =>
    have begun : join connective first second = .chain connective [first, second] := by
      cases first with
      | comparison test => rfl
      | chain c operands =>
        have apart : c ≠ connective := by
          rintro rfl
          exact other operands rfl
        simp [join, apart]
    rw [Operands.build, List.foldl_cons, begun, foldl_join]
    rfl

end Condition

/-! ### Groups -/

/-- Comparisons in groups. -/
abbrev Groups := Operands (Operands Comparison)

namespace Groups

/-- What the builders make of the groups: `and` within a group and then `or`, each from the left. -/
def condition (groups : Groups) : Condition :=
  (groups.map fun tests => (tests.map Condition.comparison).build Condition.and).build Condition.or

/-- The groups as they are written, in canonical text. -/
def text (groups : Groups) : List Char :=
  " or ".toList.intercalate (groups.toList.map fun tests => " and ".toList.intercalate (tests.toList.map Comparison.canonical))

/-- Every float is finite. -/
def Finite (groups : Groups) : Prop := ∀ tests ∈ groups.toList, ∀ test ∈ tests.toList, test.WellFormed

def lists (groups : Groups) : List (List Comparison) := groups.toList.map Operands.toList

theorem build_tests (tests : Operands Comparison) :
    (tests.map Condition.comparison).build Condition.and = .ofOperands .and (tests.toList.map .comparison) := by
  have apart : ∀ operands, (tests.map Condition.comparison).first ≠ .chain .and operands := by
    rintro operands ⟨⟩
  exact Condition.build_join apart

/-- A group is one comparison or a chain of them, and the groups are one or a chain of them. -/
theorem condition_eq (groups : Groups) : groups.condition =
    .ofOperands .or (groups.lists.map fun tests => .ofOperands .and (tests.map .comparison)) := by
  have apart : ∀ operands, Condition.ofOperands .and (groups.first.toList.map Condition.comparison) ≠ .chain .or operands := by
    obtain ⟨⟨first, more⟩, others⟩ := groups
    intro operands same
    cases more <;> cases same
  have built : groups.condition =
      (groups.map fun tests => Condition.ofOperands .and (tests.toList.map .comparison)).build Condition.or := by
    simp only [condition, build_tests]
  rw [built, lists, List.map_map]
  exact Condition.build_join apart

theorem canonical_condition (groups : Groups) : groups.condition.canonical = groups.text := by
  have plain : ∀ tests : List Comparison, (tests.map Condition.comparison).map Condition.canonical = tests.map Comparison.canonical := by
    intro tests
    simp [Condition.canonical]
  rw [condition_eq, Condition.canonical_ofOperands, text, lists, List.map_map, List.map_map]
  refine congrArg _ (List.map_congr_left fun tests _ => ?_)
  simp only [Function.comp_apply, Condition.canonical_ofOperands, plain]
  rfl

end Groups

/-! ### Reading groups -/

namespace Phrase

variable {α β : Type} {bar : Phrase Unit} {p : Phrase α} {q : Phrase β} {f : α → β} {ts : List Terminal}

theorem many_map (h : ∀ ts v, p ts v → q ts (f v)) {vs : List α} (read : many (do bar; p) ts vs) :
    many (do bar; q) ts (vs.map f) := by
  induction read with
  | nil => exact .nil
  | cons head _ ih =>
    obtain ⟨us, vs, _, rfl, barred, read⟩ := head
    exact .cons ⟨us, vs, (), rfl, barred, h _ _ read⟩ ih

theorem list_map (h : ∀ ts v, p ts v → q ts (f v)) {vs : List α} (read : list bar p ts vs) : list bar q ts (vs.map f) := by
  obtain ⟨us, _, first, rfl, head, back, _, more, rfl, tail, rfl, rfl⟩ := read
  exact ⟨us, _, f first, rfl, h _ _ head, back, [], more.map f, rfl, many_map h tail, rfl, rfl⟩

/-- `group ("or" group)*`, where `group` is `comparison ("and" comparison)*` -/
def groups : Phrase (List (List Comparison)) := list (symbol "or") (list (symbol "and") comparison)

theorem condition_of_groups {groups : Groups} (read : Phrase.groups ts groups.lists) : Phrase.condition ts groups.condition := by
  have group : ∀ us tests, list (symbol "and") comparison us tests →
      chain .and (.comparison <$> comparison) us (.ofOperands .and (tests.map .comparison)) := by
    intro us tests read
    exact map_iff.mpr ⟨_, list_map (fun us test read => map_iff.mpr ⟨test, read, rfl⟩) read, rfl⟩
  rw [groups.condition_eq]
  exact map_iff.mpr ⟨_, list_map group read, rfl⟩

theorem groups_writes {groups : Groups} (finite : groups.Finite) : Phrase.groups.Writes groups.text groups.lists := by
  have inner : " and ".toList = [' '] ++ "and".toList ++ [' '] := rfl
  have outer : " or ".toList = [' '] ++ "or".toList ++ [' '] := rfl
  have group : ∀ tests ∈ groups.lists, (list (symbol "and") comparison).Writes
      (" and ".toList.intercalate (tests.map Comparison.canonical)) tests := by
    intro tests member
    obtain ⟨tests, inside, rfl⟩ := List.mem_map.mp member
    exact .list Grammar.comparison_solid blank_space blank_space inner (by simp) (breaks_space _) (by simp [Operands.toList])
      fun test member => Comparison.canonical_writes (finite tests inside test member)
  have written := Writes.list (solid_list Grammar.comparison_solid) blank_space blank_space outer (by simp) (breaks_space _)
    (by simp [Groups.lists, Operands.toList]) group
  rwa [Groups.lists, List.map_map] at written

end Phrase

theorem Phrase.Writes.laidOut {α : Type} {p : Phrase α} {text : List Char} {v : α} (h : p.Writes text v) :
    ∃ ts, p ts v ∧ LaidOut text ts := by
  obtain ⟨ts, read, spelled⟩ := h.spells
  exact ⟨ts, read, [], spelled.layout, blank_nil⟩

namespace Attribute

variable {text : List Char} {ts : List Terminal}

/-- Terminals of an attribute are read as it, however they are set. -/
theorem parse_of_laidOut {a : Attribute} (read : Phrase.attributeItem ts a) (laid : LaidOut text ts) :
    parse (.ofList text) = .ok a := by
  obtain ⟨tail, layout, blank⟩ := laid
  have border : Borders Grammar.notDigit tail := fun c member => .inl (blank c (List.mem_of_mem_head? member))
  exact parse_eq_ok_iff.mpr ⟨ts, ⟨tail, Grammar.attributeItem_tight ts a text tail read layout border, blank⟩, read⟩

theorem parse_canonical {a : Attribute} (good : a.WellFormed) : parse (.ofList a.canonical) = .ok a := by
  obtain ⟨ts, read, laid⟩ := (canonical_writes good).laidOut
  exact parse_of_laidOut read laid

theorem parse_of_groups {groups : Groups} (read : Phrase.groups ts groups.lists) (laid : LaidOut text ts) :
    parse (.ofList text) = .ok (.condition groups.condition) :=
  parse_of_laidOut (.inl (Phrase.map_iff.mpr ⟨_, Phrase.condition_of_groups read, rfl⟩)) laid

theorem parse_text_of_groups {groups : Groups} (finite : groups.Finite) :
    parse (.ofList groups.text) = .ok (.condition groups.condition) := by
  obtain ⟨ts, read, laid⟩ := (Phrase.groups_writes finite).laidOut
  exact parse_of_groups read laid

/-- Comparisons with `and` within groups and `or` between them are read as what the builders make of the
groups, in canonical text and in any other way to write them. -/
theorem parse_groups (groups : Groups) :
    (groups.Finite → parse (.ofList groups.text) = .ok (.condition groups.condition)) ∧
    ∀ ts, Phrase.groups ts groups.lists → ∀ text : String, LaidOut text.toList ts →
      parse text = .ok (.condition groups.condition) := by
  refine ⟨parse_text_of_groups, fun ts read text laid => ?_⟩
  rw [← String.ofList_toList (s := text)]
  exact parse_of_groups read laid

/-- One comparison three times, with a blank between any two tokens and with none. -/
theorem parse_groups_of_repeated :
    parse "a0 < 1 and a0 < 1 or a0 < 1" = .ok (.condition (.chain .or [.chain .and
      [.comparison ⟨0, .less, .number (.int 1)⟩, .comparison ⟨0, .less, .number (.int 1)⟩],
      .comparison ⟨0, .less, .number (.int 1)⟩])) ∧
    parse "a0<1anda0<1ora0<1" = .ok (.condition (.chain .or [.chain .and
      [.comparison ⟨0, .less, .number (.int 1)⟩, .comparison ⟨0, .less, .number (.int 1)⟩],
      .comparison ⟨0, .less, .number (.int 1)⟩])) := by
  obtain ⟨c, same⟩ : ∃ c : Comparison, c = ⟨0, .less, .number (.int 1)⟩ := ⟨_, rfl⟩
  obtain ⟨groups, shape⟩ : ∃ groups : Groups, groups = ⟨⟨c, [c]⟩, [⟨c, []⟩]⟩ := ⟨_, rfl⟩
  have finite : groups.Finite := by
    simp [shape, Groups.Finite, Operands.toList, same, Comparison.WellFormed, Literal.WellFormed, Number.WellFormed]
  have text : .ofList groups.text = "a0 < 1 and a0 < 1 or a0 < 1" := by
    subst shape same
    decide
  have built : groups.condition = .chain .or [.chain .and [.comparison c, .comparison c], .comparison c] := by
    rw [shape]
    rfl
  obtain ⟨ts, shown, read⟩ : ∃ ts, ts.flatMap Terminal.text = "a0<1".toList ∧ Phrase.comparison ts c := by
    refine ⟨[⟨.token .attributeIndex, ['a', '0']⟩, ⟨.token .comparator, ['<']⟩, ⟨.token .integer, ['1']⟩], by decide, [_], _, 0,
      rfl, ⟨_, rfl, .mk (by simp [Lexeme.Digits]) (by decide), by decide⟩, [_], _, .less, rfl, ⟨_, rfl, rfl⟩, ?_⟩
    refine Phrase.map_iff.mpr ⟨.number (.int 1), .inl (Phrase.map_iff.mpr ⟨.int 1, .inr ?_, rfl⟩), same⟩
    exact Phrase.map_iff.mpr ⟨1, ⟨_, rfl, .positive (by decide) (by simp [Lexeme.Digits]), by decide⟩, rfl⟩
  have one : Phrase.list (Phrase.symbol "and") Phrase.comparison ts [c] :=
    ⟨_, [], c, (List.append_nil _).symm, read, [], [], [], rfl, .nil, rfl, rfl⟩
  have two : Phrase.list (Phrase.symbol "and") Phrase.comparison (ts ++ ([⟨.symbol "and", "and".toList⟩] ++ ts ++ [])) [c, c] :=
    ⟨ts, _, c, rfl, read, _, [], [c], (List.append_nil _).symm, .cons ⟨[_], ts, (), rfl, ⟨_, rfl, rfl⟩, read⟩ .nil, rfl, rfl⟩
  have all : Phrase.groups (ts ++ ([⟨.symbol "and", "and".toList⟩] ++ ts ++ []) ++ ([⟨.symbol "or", "or".toList⟩] ++ ts ++ []))
      groups.lists := by
    rw [shape]
    exact ⟨_, _, [c, c], rfl, two, _, [], [[c]], (List.append_nil _).symm, .cons ⟨[_], ts, (), rfl, ⟨_, rfl, rfl⟩, one⟩ .nil, rfl, rfl⟩
  have laid : LaidOut "a0<1anda0<1ora0<1".toList
      (ts ++ ([⟨.symbol "and", "and".toList⟩] ++ ts ++ []) ++ ([⟨.symbol "or", "or".toList⟩] ++ ts ++ [])) :=
    laidOut_joined (by simp [shown])
  rw [← same, ← built, ← text]
  exact ⟨(parse_groups groups).1 finite, (parse_groups groups).2 _ all _ laid⟩

end Attribute

end ChunkSelector
