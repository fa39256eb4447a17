import ChunkSelector.Proofs.Lookahead

/-!
# The terminals that a phrase uses

`Phrase.Uses` bounds the classes of terminals in the texts of a phrase, and the bounds of the grammar are
computed. A slash stands in a hyperchunk only between its sections, a semicolon only between hyperchunks.
-/

namespace ChunkSelector

namespace Phrase

/-- All terminals in texts of the phrase are of these classes. -/
def Uses (p : Phrase α) (kinds : List Expected) : Prop := ∀ ts v, p ts v → ∀ t ∈ ts, t.kind ∈ kinds

variable {α β : Type} {p q : Phrase α} {kinds : List Expected}

theorem Uses.weaken {more : List Expected} (h : p.Uses kinds) (sub : ∀ kind ∈ kinds, kind ∈ more) : p.Uses more :=
  fun ts v read t member => sub _ (h ts v read t member)

theorem uses_terminal {kind : Expected} {means : List Char → α → Prop} : (terminal kind means).Uses [kind] := by
  intro ts v read t member
  obtain ⟨text, rfl, -⟩ := read
  obtain rfl := List.mem_singleton.mp member
  exact List.mem_singleton_self kind

theorem uses_pure {v : α} : (pure v : Phrase α).Uses kinds := by
  intro ts w read t member
  obtain ⟨rfl, -⟩ := read
  cases member

theorem Uses.bind {next : α → Phrase β} (h : p.Uses kinds) (rest : ∀ a, (next a).Uses kinds) : (p >>= next).Uses kinds := by
  intro ts v read t member
  obtain ⟨first, more, a, rfl, head, tail⟩ := read
  rcases List.mem_append.mp member with inside | behind
  · exact h first a head t inside
  · exact rest a more v tail t behind

theorem Uses.map {f : α → β} (h : p.Uses kinds) : (f <$> p).Uses kinds := h.bind fun _ => uses_pure

theorem Uses.either (left : p.Uses kinds) (right : q.Uses kinds) : (p.either q).Uses kinds :=
  fun ts v read => read.elim (left ts v) (right ts v)

theorem Uses.maybe (h : p.Uses kinds) : p.maybe.Uses kinds := h.map.either uses_pure

theorem Uses.many (h : p.Uses kinds) : p.many.Uses kinds := by
  intro ts v read t member
  induction read with
  | nil => cases member
  | cons head tail ih =>
    rcases List.mem_append.mp member with inside | behind
    · exact h _ _ head t inside
    · exact ih behind

theorem Uses.list {separator : Phrase Unit} (bar : separator.Uses kinds) (h : p.Uses kinds) : (list separator p).Uses kinds :=
  h.bind fun _ => (bar.bind fun _ => h).many.bind fun _ => uses_pure

theorem uses_symbol {text : String} (known : .symbol text ∈ kinds) : (symbol text).Uses kinds :=
  uses_terminal.weaken fun _ member => List.mem_singleton.mp member ▸ known

theorem Uses.viable {ts : List Terminal} {e : Expected} (h : p.Uses kinds) (viable : p.Viable ts e) : e ∈ kinds := by
  obtain ⟨t, more, v, rfl, read⟩ := viable
  exact h _ v read t (by simp)

end Phrase

namespace Grammar

open Phrase

def dimensionKinds : List Expected := [.symbol ":", .symbol "...", .token .integer]

def literalKinds : List Expected := [.token .float, .token .integer, .token .string]

def conditionKinds : List Expected :=
  [.token .attributeIndex, .token .comparator, .symbol "and", .symbol "or"] ++ literalKinds

def argumentKinds : List Expected := .token .attributeIndex :: literalKinds

def callKinds : List Expected :=
  [.token .identifier, .symbol "(", .symbol ",", .symbol ")", .token .attributeIndex] ++ literalKinds

def attributeKinds : List Expected := conditionKinds ++ callKinds ++ dimensionKinds

def hyperchunkKinds : List Expected := [.symbol "/", .symbol "|", .symbol "order:"] ++ attributeKinds

theorem dimension_uses : Phrase.dimension.Uses dimensionKinds := by
  have integer : Phrase.integer.Uses dimensionKinds := uses_terminal.weaken (by decide)
  have colon : (Phrase.symbol ":").Uses dimensionKinds := uses_symbol (by decide)
  have ellipsis : (Phrase.symbol "...").Uses dimensionKinds := uses_symbol (by decide)
  have slice : Phrase.slice.Uses dimensionKinds := integer.maybe.bind fun _ => colon.bind fun _ =>
    integer.maybe.bind fun _ => (colon.bind fun _ => integer.maybe).maybe.bind fun _ => uses_pure
  exact slice.map.either ((ellipsis.bind fun _ => uses_pure).either integer.map)

theorem number_uses : Phrase.number.Uses literalKinds := by
  have float : Phrase.float.Uses literalKinds := uses_terminal.weaken (by decide)
  have integer : Phrase.integer.Uses literalKinds := uses_terminal.weaken (by decide)
  exact float.map.either integer.map

theorem string_uses : Phrase.string.Uses literalKinds := uses_terminal.weaken (by decide)

theorem chain_uses {operand : Phrase Condition} (connective : Connective) (h : operand.Uses conditionKinds) :
    (Phrase.chain connective operand).Uses conditionKinds := by
  have keyword : .symbol connective.keyword ∈ conditionKinds := by cases connective <;> decide
  exact ((uses_symbol keyword).list h).map

theorem comparison_uses : Phrase.comparison.Uses conditionKinds := by
  have index : Phrase.attributeIndex.Uses conditionKinds := uses_terminal.weaken (by decide)
  have op : Phrase.comparator.Uses conditionKinds := uses_terminal.weaken (by decide)
  have literal : Phrase.literal.Uses conditionKinds := (number_uses.map.either string_uses.map).weaken (by decide)
  exact index.bind fun _ => op.bind fun _ => literal.map

theorem condition_uses : Phrase.condition.Uses conditionKinds := chain_uses .or (chain_uses .and comparison_uses.map)

theorem argument_uses : Phrase.argument.Uses argumentKinds := by
  have index : Phrase.attributeIndex.Uses argumentKinds := uses_terminal.weaken (by decide)
  exact index.map.either ((string_uses.map.either number_uses.map).weaken (by decide))

theorem call_uses : Phrase.call.Uses callKinds := by
  have name : Phrase.identifier.Uses callKinds := uses_terminal.weaken (by decide)
  have arguments : (Phrase.list (Phrase.symbol ",") Phrase.argument).Uses callKinds := (uses_symbol (by decide)).list (argument_uses.weaken (by decide))
  exact name.bind fun _ => (uses_symbol (by decide)).bind fun _ => arguments.maybe.bind fun _ =>
    (uses_symbol (by decide)).bind fun _ => uses_pure

theorem attributeItem_uses : Phrase.attributeItem.Uses attributeKinds := by
  have condition : Phrase.condition.Uses attributeKinds := condition_uses.weaken (by decide)
  have call : Phrase.call.Uses attributeKinds := call_uses.weaken (by decide)
  have index : Phrase.attributeIndex.Uses attributeKinds := uses_terminal.weaken (by decide)
  have dimension : Phrase.dimension.Uses attributeKinds := dimension_uses.weaken (by decide)
  exact condition.map.either (call.map.either (index.map.either dimension.map))

theorem hyperslice_uses : Phrase.hyperslice.Uses (.symbol "," :: dimensionKinds) :=
  (uses_symbol (by decide)).list (dimension_uses.weaken (by decide))

theorem alternatives_uses {item : Phrase α} {kinds : List Expected} (h : item.Uses kinds) :
    (Phrase.alternatives item).Uses (.symbol "|" :: kinds) :=
  (uses_symbol List.mem_cons_self).list (h.weaken fun _ => List.mem_cons_of_mem _)

theorem hyperchunk_uses : Phrase.hyperchunk.Uses hyperchunkKinds := by
  have slash : (Phrase.symbol "/").Uses hyperchunkKinds := uses_symbol (by decide)
  have arrays : (Phrase.alternatives Phrase.dimension).Uses hyperchunkKinds := (alternatives_uses dimension_uses).weaken (by decide)
  have attributes : (Phrase.alternatives Phrase.attributeItem).Uses hyperchunkKinds :=
    (alternatives_uses attributeItem_uses).weaken (by decide)
  have hyperslices : (Phrase.alternatives Phrase.hyperslice).Uses hyperchunkKinds :=
    (alternatives_uses hyperslice_uses).weaken (by decide)
  have call : Phrase.call.Uses hyperchunkKinds := call_uses.weaken (by decide)
  refine arrays.bind fun _ => (slash.bind fun _ => attributes).maybe.bind fun given => ?_
  cases given with
  | none => exact uses_pure
  | some _ =>
    have order : (Phrase.symbol "order:").Uses hyperchunkKinds := uses_symbol (by decide)
    exact (slash.bind fun _ => order.bind fun _ => call).maybe.bind fun _ =>
      (slash.bind fun _ => hyperslices).maybe.bind fun _ => uses_pure

end Grammar

end ChunkSelector
