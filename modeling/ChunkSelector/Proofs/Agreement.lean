import ChunkSelector.Proofs.JsonText
import ChunkSelector.Proofs.RoundTrip

/-!
# Outputs that agree

The JSON text and the canonical text of a selector each tell the whole of it. `Selector.outputs_agree`:
for accepted texts it is all one whether the selectors, the JSON texts or the canonical texts are the same.
-/

namespace ChunkSelector

/-! ### Selectors as JSON values are told apart -/

theorem Json.tagged_inj {a b : String} {j k : Json} : tagged a j = tagged b k ↔ a = b ∧ j = k := by
  simp [tagged]

theorem Json.ofOption_injective {α : Type} {encode : α → Json} (h : Function.Injective encode) (some : ∀ a, encode a ≠ .null) :
    Function.Injective (ofOption encode) := by
  intro a b same
  cases a with
  | none =>
    cases b with
    | none => rfl
    | some b => exact absurd same.symm (some b)
  | some a =>
    cases b with
    | none => exact absurd same (some a)
    | some b => rw [h same]

theorem array_injective {α : Type} {encode : α → Json} (h : Function.Injective encode) :
    Function.Injective fun items : List α => Json.array (items.map encode) :=
  fun _ _ same => h.list_map (Json.array.inj same)

theorem Number.toJson_injective : Function.Injective Number.toJson := by
  intro a b same
  cases a with
  | int n =>
    cases b with
    | int m => rw [Int64.toInt_inj.mp (Json.int.inj (Json.tagged_inj.mp same).2)]
    | float y => simp [toJson, Json.tagged] at same
  | float x =>
    cases b with
    | int m => simp [toJson, Json.tagged] at same
    | float y => rw [Json.float.inj (Json.tagged_inj.mp same).2]

theorem Number.toJson_ne_string (n : Number) (s : String) : n.toJson ≠ .tagged "string" (.string s) := by
  cases n <;> simp [toJson, Json.tagged]

theorem Literal.toJson_injective : Function.Injective Literal.toJson := by
  intro a b same
  cases a with
  | number n =>
    cases b with
    | number m => rw [Number.toJson_injective same]
    | string t => exact absurd same (n.toJson_ne_string t)
  | string s =>
    cases b with
    | number m => exact absurd same.symm (m.toJson_ne_string s)
    | string t => rw [Json.string.inj (Json.tagged_inj.mp same).2]

theorem AttributeIndex.toJson_injective : Function.Injective AttributeIndex.toJson := by
  intro a b same
  exact UInt64.toNat_inj.mp (Int.ofNat_inj.mp (Json.int.inj (Json.tagged_inj.mp same).2))

theorem Slice.toJson_injective : Function.Injective Slice.toJson := by
  have part : Function.Injective (Json.ofOption fun n : Int64 => .int n.toInt) :=
    Json.ofOption_injective (fun a b same => Int64.toInt_inj.mp (Json.int.inj same)) (by simp)
  rintro ⟨a, b, c⟩ ⟨d, e, f⟩ same
  simp only [toJson, Json.tagged_inj, true_and, Json.object.injEq, List.cons.injEq, Prod.mk.injEq, and_true] at same
  obtain ⟨start, step, stop⟩ := same
  rw [part start, part step, part stop]

theorem Dimension.toJson_injective : Function.Injective Dimension.toJson := by
  intro a b same
  cases a with
  | slice s =>
    cases b with
    | slice t => rw [Slice.toJson_injective same]
    | _ => simp [toJson, Slice.toJson, Json.tagged] at same
  | ellipsis =>
    cases b with
    | ellipsis => rfl
    | _ => simp [toJson, Slice.toJson, Json.tagged] at same
  | index n =>
    cases b with
    | index m => rw [Int64.toInt_inj.mp (Json.int.inj (Json.tagged_inj.mp same).2)]
    | _ => simp [toJson, Slice.toJson, Json.tagged] at same

theorem Hyperslice.toJson_injective : Function.Injective Hyperslice.toJson := array_injective Dimension.toJson_injective

theorem Comparator.symbol_injective : Function.Injective Comparator.symbol := by
  intro a b
  cases a <;> cases b <;> decide

theorem Comparison.toJson_injective : Function.Injective Comparison.toJson := by
  rintro ⟨a, b, c⟩ ⟨d, e, f⟩ same
  simp only [toJson, Json.tagged_inj, true_and, Json.object.injEq, List.cons.injEq, Prod.mk.injEq, and_true, Json.int.injEq,
    Json.string.injEq] at same
  obtain ⟨index, op, value⟩ := same
  rw [(UInt64.toNat_inj.mp (Int.ofNat_inj.mp index) : a = d), Comparator.symbol_injective op, Literal.toJson_injective value]

theorem Connective.keyword_injective : Function.Injective Connective.keyword := by
  intro a b
  cases a <;> cases b <;> decide

theorem Connective.keyword_ne (connective : Connective) : connective.keyword ≠ "comparison" := by
  cases connective <;> decide

mutual

theorem Condition.eq_of_toJson_eq : ∀ {c d : Condition}, c.toJson = d.toJson → c = d
  | .comparison a, .comparison b, same => by
    rw [Condition.toJson, Condition.toJson] at same
    rw [Comparison.toJson_injective same]
  | .comparison _, .chain c _, same => by
    rw [Condition.toJson, Condition.toJson] at same
    exact absurd (Json.tagged_inj.mp same).1.symm c.keyword_ne
  | .chain c _, .comparison _, same => by
    rw [Condition.toJson, Condition.toJson] at same
    exact absurd (Json.tagged_inj.mp same).1 c.keyword_ne
  | .chain c xs, .chain d ys, same => by
    rw [Condition.toJson, Condition.toJson] at same
    obtain ⟨keyword, operands⟩ := Json.tagged_inj.mp same
    rw [Connective.keyword_injective keyword, Condition.eq_of_toJsonAll_eq (Json.array.inj operands)]

theorem Condition.eq_of_toJsonAll_eq : ∀ {xs ys : List Condition}, Condition.toJsonAll xs = Condition.toJsonAll ys → xs = ys
  | [], [], _ => rfl
  | x :: xs, y :: ys, same => by
    rw [Condition.toJsonAll, Condition.toJsonAll] at same
    obtain ⟨first, more⟩ := List.cons.inj same
    rw [Condition.eq_of_toJson_eq first, Condition.eq_of_toJsonAll_eq more]

end

theorem Argument.toJson_injective : Function.Injective Argument.toJson := by
  intro a b same
  cases a with
  | index i =>
    cases b with
    | index j => rw [AttributeIndex.toJson_injective same]
    | string t => simp [toJson, AttributeIndex.toJson, Json.tagged] at same
    | number m => cases m <;> simp [toJson, AttributeIndex.toJson, Number.toJson, Json.tagged] at same
  | string s =>
    cases b with
    | index j => simp [toJson, AttributeIndex.toJson, Json.tagged] at same
    | string t => rw [Json.string.inj (Json.tagged_inj.mp same).2]
    | number m => exact absurd same.symm (m.toJson_ne_string s)
  | number n =>
    cases b with
    | index j => cases n <;> simp [toJson, AttributeIndex.toJson, Number.toJson, Json.tagged] at same
    | string t => exact absurd same (n.toJson_ne_string t)
    | number m => rw [Number.toJson_injective same]

theorem Call.toJson_injective : Function.Injective Call.toJson := by
  rintro ⟨name, arguments⟩ ⟨other, others⟩ same
  simp only [toJson, Json.tagged_inj, true_and, Json.object.injEq, List.cons.injEq, Prod.mk.injEq, and_true,
    Json.string.injEq] at same
  rw [array_injective Argument.toJson_injective same.1, same.2]

/-- The name that a value begins with, if it is an object. -/
def Json.tag : Json → Option String
  | .object ((name, _) :: _) => some name
  | _ => none

/-- The place of an attribute's alternative in the grammar. -/
def Attribute.place : Attribute → Nat
  | .condition _ => 0
  | .call _ => 1
  | .index _ => 2
  | .dimension _ => 3

def Attribute.placeOf : Option String → Nat
  | some "comparison" | some "and" | some "or" => 0
  | some "call" => 1
  | some "attribute" => 2
  | _ => 3

theorem Attribute.place_eq (a : Attribute) : placeOf a.toJson.tag = a.place := by
  cases a with
  | condition c =>
    cases c with
    | comparison _ => rw [toJson, Condition.toJson]; rfl
    | chain connective _ => cases connective <;> rw [toJson, Condition.toJson] <;> rfl
  | call _ => rfl
  | index _ => rfl
  | dimension d => cases d <;> rfl

theorem Attribute.toJson_injective : Function.Injective Attribute.toJson := by
  intro a b same
  have alternative : a.place = b.place := by rw [← place_eq, ← place_eq, same]
  cases a with
  | condition c =>
    cases b with
    | condition d => rw [Condition.eq_of_toJson_eq same]
    | _ => simp [place] at alternative
  | call f =>
    cases b with
    | call g => rw [Call.toJson_injective same]
    | _ => simp [place] at alternative
  | index i =>
    cases b with
    | index j => rw [AttributeIndex.toJson_injective same]
    | _ => simp [place] at alternative
  | dimension d =>
    cases b with
    | dimension e => rw [Dimension.toJson_injective same]
    | _ => simp [place] at alternative

theorem Hyperchunk.toJson_injective : Function.Injective Hyperchunk.toJson := by
  have attributes := Json.ofOption_injective (array_injective Attribute.toJson_injective) (by simp)
  have hyperslices := Json.ofOption_injective (array_injective Hyperslice.toJson_injective) (by simp)
  have order := Json.ofOption_injective Call.toJson_injective (by simp [Call.toJson, Json.tagged])
  rintro ⟨a, b, c, d⟩ ⟨e, f, g, h⟩ same
  simp only [toJson, Json.object.injEq, List.cons.injEq, Prod.mk.injEq, true_and, and_true] at same
  obtain ⟨first, second, last, third⟩ := same
  rw [array_injective Dimension.toJson_injective first, attributes second, order third, hyperslices last]

theorem Selector.toJson_injective : Function.Injective Selector.toJson := array_injective Hyperchunk.toJson_injective

/-! ### Floats in them are finite -/

namespace Json

theorem finite_tagged {tag : String} {j : Json} (h : j.Finite) : (tagged tag j).Finite :=
  .object fun m member => by
    obtain rfl := List.mem_singleton.mp member
    exact h

theorem finite_ofOption {α : Type} {encode : α → Json} {v : Option α} (h : ∀ a ∈ v, (encode a).Finite) : (ofOption encode v).Finite := by
  cases v with
  | none => exact .null
  | some a => exact h a rfl

theorem finite_array {α : Type} {encode : α → Json} {items : List α} (h : ∀ a ∈ items, (encode a).Finite) :
    (array (items.map encode)).Finite := by
  refine .array fun j member => ?_
  obtain ⟨a, inside, rfl⟩ := List.mem_map.mp member
  exact h a inside

end Json

section finite

open Json

theorem Number.toJson_finite {n : Number} (h : n.WellFormed) : n.toJson.Finite := by
  cases n with
  | int n => exact finite_tagged (.int _)
  | float x => exact finite_tagged (.float h)

theorem Literal.toJson_finite {l : Literal} (h : l.WellFormed) : l.toJson.Finite := by
  cases l with
  | number n => exact Number.toJson_finite h
  | string s => exact finite_tagged (.string s)

theorem Dimension.toJson_finite (d : Dimension) : d.toJson.Finite := by
  cases d with
  | slice s =>
    have part (n : Option Int64) : (ofOption (fun n : Int64 => .int n.toInt) n).Finite := finite_ofOption fun _ _ => .int _
    refine finite_tagged (.object ?_)
    simp [part]
  | ellipsis => exact .string _
  | index n => exact finite_tagged (.int _)

theorem Comparison.toJson_finite {c : Comparison} (h : c.WellFormed) : c.toJson.Finite := by
  refine finite_tagged (.object ?_)
  simp [Finite.int, Finite.string, Literal.toJson_finite h]

theorem Condition.toJsonAll_eq_map (operands : List Condition) : toJsonAll operands = operands.map toJson := by
  induction operands with
  | nil => rfl
  | cons first more ih => rw [toJsonAll, List.map_cons, ih]

theorem Condition.chain_finite {connective : Connective} {operands : List Condition} (h : ∀ c ∈ operands, c.toJson.Finite) :
    (chain connective operands).toJson.Finite := by
  rw [toJson, toJsonAll_eq_map]
  exact finite_tagged (finite_array h)

theorem Condition.Conjunction.toJson_finite {c : Condition} (h : c.Conjunction) : c.toJson.Finite := by
  have single {test : Comparison} (good : test.WellFormed) : (Condition.comparison test).toJson.Finite := by
    rw [Condition.toJson]
    exact Comparison.toJson_finite good
  cases h with
  | comparison good => exact single good
  | chain several good =>
    refine chain_finite fun c member => ?_
    obtain ⟨test, inside, rfl⟩ := List.mem_map.mp member
    exact single (good test inside)

theorem Condition.toJson_finite {c : Condition} (h : c.WellFormed) : c.toJson.Finite := by
  cases h with
  | conjunction good => exact good.toJson_finite
  | chain several good => exact chain_finite fun c member => (good c member).toJson_finite

theorem Argument.toJson_finite {a : Argument} (h : a.WellFormed) : a.toJson.Finite := by
  cases a with
  | index i => exact finite_tagged (.int _)
  | string s => exact finite_tagged (.string s)
  | number n => exact Number.toJson_finite h

theorem Call.toJson_finite {c : Call} (h : c.WellFormed) : c.toJson.Finite := by
  have arguments := finite_array fun a member => Argument.toJson_finite (h.arguments a member)
  refine finite_tagged (.object ?_)
  simp [arguments, Finite.string]

theorem Attribute.toJson_finite {a : Attribute} (h : a.WellFormed) : a.toJson.Finite := by
  cases a with
  | condition filter => exact Condition.toJson_finite h
  | call function => exact Call.toJson_finite h
  | index i => exact finite_tagged (.int _)
  | dimension d => exact d.toJson_finite

theorem Hyperchunk.toJson_finite {h : Hyperchunk} (good : h.WellFormed) : h.toJson.Finite := by
  have arrays := finite_array fun d (_ : d ∈ h.arrays) => d.toJson_finite
  have attributes : (ofOption (fun items => .array (items.map Attribute.toJson)) h.attributes).Finite :=
    finite_ofOption fun items given => finite_array fun a member => Attribute.toJson_finite ((good.attributes items given).2 a member)
  have hyperslices : (ofOption (fun items => .array (items.map Hyperslice.toJson)) h.hyperslices).Finite :=
    finite_ofOption fun items _ => finite_array fun a _ => finite_array fun d _ => d.toJson_finite
  have order : (ofOption Call.toJson h.order).Finite := finite_ofOption fun call given => Call.toJson_finite (good.order call given).2
  refine .object ?_
  simp [arrays, attributes, hyperslices, order]

theorem Selector.toJson_finite {s : Selector} (good : s.WellFormed) : s.toJson.Finite :=
  finite_array fun h member => Hyperchunk.toJson_finite (good.clauses h member)

end finite

/-! ### The outputs -/

namespace Selector

theorem checkText_eq_ok_iff {style : Json.Style} {text out : String} :
    checkText style text = .ok out ↔ ∃ s : Selector, parse text = .ok s ∧ s.toJson.text style = out := by
  unfold checkText readSelector
  cases parse text with
  | error e => simp [Except.mapError, bind, Except.bind]
  | ok s => simp [Except.mapError, bind, Except.bind, pure, Except.pure]

variable {s t : String} {a b : Selector}

/-- Two accepted texts have one output in common exactly if they stand for one selector, where what is written tells it. -/
theorem same_output_iff {output : String → Except Failure String} {write : Selector → String}
    (ok : ∀ {text out}, output text = .ok out ↔ ∃ s : Selector, parse text = .ok s ∧ write s = out)
    (told : write a = write b → a = b) (hs : parse s = .ok a) (ht : parse t = .ok b) :
    (∃ out, output s = .ok out ∧ output t = .ok out) ↔ a = b := by
  constructor
  · rintro ⟨out, left, right⟩
    obtain ⟨_, first, shown⟩ := ok.mp left
    obtain ⟨_, second, same⟩ := ok.mp right
    obtain rfl := Except.ok.inj (hs.symm.trans first)
    obtain rfl := Except.ok.inj (ht.symm.trans second)
    exact told (shown.trans same.symm)
  · rintro rfl
    exact ⟨write a, ok.mpr ⟨a, hs, rfl⟩, ok.mpr ⟨a, ht, rfl⟩⟩

/-- For two accepted texts it is all one whether their JSON texts, their canonical texts or the selectors they stand for
are the same. -/
theorem outputs_agree (hs : parse s = .ok a) (ht : parse t = .ok b) :
    [∃ out, checkText .compact s = .ok out ∧ checkText .compact t = .ok out,
      ∃ out, checkText .indented s = .ok out ∧ checkText .indented t = .ok out,
      ∃ out, formatText s = .ok out ∧ formatText t = .ok out,
      a = b].TFAE := by
  have first := wellFormed_of_derives (parse_eq_ok_iff.mp hs)
  have second := wellFormed_of_derives (parse_eq_ok_iff.mp ht)
  have check (style : Json.Style) : (∃ out, checkText style s = .ok out ∧ checkText style t = .ok out) ↔ a = b :=
    same_output_iff checkText_eq_ok_iff
      (fun same => toJson_injective (Json.text_injective (toJson_finite first) (toJson_finite second) same)) hs ht
  have format : (∃ out, formatText s = .ok out ∧ formatText t = .ok out) ↔ a = b := by
    refine same_output_iff formatText_eq_ok_iff (fun same => ?_) hs ht
    have back := parse_text first
    rw [same, parse_text second] at back
    exact (Except.ok.inj back).symm
  tfae_have 1 ↔ 4 := check .compact
  tfae_have 2 ↔ 4 := check .indented
  tfae_have 3 ↔ 4 := format
  tfae_finish

theorem outputs_agree_on_slices : parse "1:2:" = .ok [⟨[.slice ⟨some 1, some 2, none⟩], none, none, none⟩] ∧
    parse " 1:2" = .ok [⟨[.slice ⟨some 1, some 2, none⟩], none, none, none⟩] ∧
    ∃ out, checkText .indented "1:2:" = .ok out ∧ checkText .indented " 1:2" = .ok out := by
  have two : parse "1:2:" = .ok [⟨[.slice ⟨some 1, some 2, none⟩], none, none, none⟩] := by rfl
  have one : parse " 1:2" = .ok [⟨[.slice ⟨some 1, some 2, none⟩], none, none, none⟩] := by rfl
  exact ⟨two, one, ((outputs_agree two one).out 1 3).mpr rfl⟩

end Selector

end ChunkSelector
