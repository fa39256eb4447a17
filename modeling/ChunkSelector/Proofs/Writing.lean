import ChunkSelector.Canonical
import ChunkSelector.Proofs.Rule

/-!
# Texts written for a phrase

`Phrase.Writes` says that a text is written by the terminals of a phrase, whatever follows it, as
long as no letter or digit does. Texts of composed phrases are written part by part.
-/

namespace ChunkSelector

def Breaks (after : List Char) : Prop := ∀ c ∈ after.head?, c.isAlphanum = false

theorem breaks_nil : Breaks [] := by simp [Breaks]

theorem breaks_append {a b : List Char} (left : Breaks a) (right : Breaks b) : Breaks (a ++ b) := by
  cases a with
  | nil => exact right
  | cons c a => exact left

theorem breaks_of_prefix {a b : List Char} (present : a ≠ []) (left : Breaks a) : Breaks (a ++ b) := by
  cases a with
  | nil => exact absurd rfl present
  | cons c a => exact left

theorem Terminal.endsBefore_of_breaks (t : Terminal) {after : List Char} (h : Breaks after) : t.EndsBefore after := by
  have noDigit : Lexeme.NoDigit after := by
    intro c member
    have other := h c member
    rw [Char.isAlphanum, Bool.or_eq_false_iff] at other
    exact other.2
  unfold EndsBefore
  split
  · exact noDigit
  · exact noDigit
  · exact noDigit
  · exact h
  · trivial

namespace Phrase

variable {α β : Type} {p q : Phrase α} {text : List Char} {v : α}

/-- The text is written by terminals of the phrase that stand for the value. -/
def Writes (p : Phrase α) (text : List Char) (v : α) : Prop :=
  ∃ ts, p ts v ∧ ∀ after, Breaks after → Spells (text ++ after) ts after

namespace Writes

theorem spells (h : p.Writes text v) : ∃ ts, p ts v ∧ Spells text ts [] := by
  obtain ⟨ts, read, spelled⟩ := h
  have whole := spelled [] breaks_nil
  rw [List.append_nil] at whole
  exact ⟨ts, read, whole⟩

theorem terminal {kind : Expected} {means : List Char → α → Prop} (meant : means text v) :
    (Phrase.terminal kind means).Writes text v := by
  refine ⟨_, ⟨text, rfl, meant⟩, fun after breaks => ?_⟩
  have spelled := Spells.cons blank_nil (Terminal.endsBefore_of_breaks ⟨kind, text⟩ breaks) (.nil after)
  rwa [List.nil_append] at spelled

theorem pure : (Pure.pure v : Phrase α).Writes [] v := ⟨[], ⟨rfl, rfl⟩, fun after _ => .nil after⟩

theorem bind {next : α → Phrase β} {more : List Char} {w : β} (first : p.Writes text v) (rest : (next v).Writes more w)
    (breaks : Breaks more) : (p >>= next).Writes (text ++ more) w := by
  obtain ⟨ts, head, left⟩ := first
  obtain ⟨us, tail, right⟩ := rest
  refine ⟨ts ++ us, ⟨ts, us, v, rfl, head, tail⟩, fun after ends => ?_⟩
  rw [List.append_assoc]
  exact (left _ (breaks_append breaks ends)).append (right after ends)

theorem symbol_bind {symbol : String} {next : Unit → Phrase β} {more : List Char} {w : β}
    (rest : (next ()).Writes more w) : (Phrase.symbol symbol >>= next).Writes (symbol.toList ++ more) w := by
  obtain ⟨us, tail, right⟩ := rest
  refine ⟨⟨.symbol symbol, symbol.toList⟩ :: us, ⟨[_], us, (), rfl, ⟨_, rfl, rfl⟩, tail⟩, fun after ends => ?_⟩
  have spelled := Spells.cons (t := ⟨.symbol symbol, symbol.toList⟩) blank_nil trivial (right after ends)
  rwa [List.nil_append, ← List.append_assoc] at spelled

theorem map (f : α → β) (h : p.Writes text v) : (f <$> p).Writes text (f v) := by
  obtain ⟨ts, read, spelled⟩ := h
  exact ⟨ts, map_iff.mpr ⟨v, read, rfl⟩, spelled⟩

theorem left (h : p.Writes text v) : (p.either q).Writes text v := by
  obtain ⟨ts, read, spelled⟩ := h
  exact ⟨ts, .inl read, spelled⟩

theorem right (h : q.Writes text v) : (p.either q).Writes text v := by
  obtain ⟨ts, read, spelled⟩ := h
  exact ⟨ts, .inr read, spelled⟩

theorem some (h : p.Writes text v) : p.maybe.Writes text (some v) := (h.map Option.some).left

theorem none : p.maybe.Writes [] none := pure.right

theorem blanks {blanks : List Char} (blank : Blank blanks) (solid : p.Solid) (h : p.Writes text v) :
    p.Writes (blanks ++ text) v := by
  obtain ⟨ts, read, spelled⟩ := h
  cases ts with
  | nil => exact absurd read (solid v)
  | cons t ts =>
    refine ⟨t :: ts, read, fun after ends => ?_⟩
    rw [List.append_assoc]
    exact (spelled after ends).after_blanks blank

/-! ### Lists -/

theorem intercalate_cons {γ : Type} (glue first : List γ) (more : List (List γ)) :
    glue.intercalate (first :: more) = first ++ more.flatMap (glue ++ ·) := by
  induction more generalizing first with
  | nil => simp
  | cons second more ih =>
    rw [List.intercalate_cons_cons, ih second]
    simp

variable {write : α → List Char} {symbol : String} {front back : List Char}

/-- Items with a separator before each, which may have blanks on both sides. -/
theorem many (solid : p.Solid) (hf : Blank front) (hb : Blank back) (present : front ++ symbol.toList ++ back ≠ [])
    (breaks : Breaks (front ++ symbol.toList ++ back)) {vs : List α} (h : ∀ v ∈ vs, p.Writes (write v) v) :
    Writes (Phrase.many (do Phrase.symbol symbol; p))
      ((vs.map write).flatMap (front ++ symbol.toList ++ back ++ ·)) vs := by
  induction vs with
  | nil => exact ⟨[], .nil, fun after _ => .nil after⟩
  | cons v vs ih =>
    have item : Writes (do Phrase.symbol symbol; p) (front ++ (symbol.toList ++ (back ++ write v))) v :=
      (symbol_bind ((h v (by simp)).blanks hb solid)).blanks hf (solid_bind_left solid_terminal)
    obtain ⟨ts, head, left⟩ := item
    obtain ⟨us, tail, right⟩ := ih fun v member => h v (by simp [member])
    refine ⟨ts ++ us, .cons head tail, fun after ends => ?_⟩
    have next : Breaks ((vs.map write).flatMap (front ++ symbol.toList ++ back ++ ·) ++ after) := by
      cases vs with
      | nil => exact ends
      | cons w vs =>
        rw [List.map_cons, List.flatMap_cons, List.append_assoc, List.append_assoc]
        exact breaks_of_prefix present breaks
    have spelled := (left _ next).append (right after ends)
    simpa only [List.map_cons, List.flatMap_cons, List.append_assoc] using spelled

theorem list {glue : List Char} (solid : p.Solid) (hf : Blank front) (hb : Blank back)
    (shape : glue = front ++ symbol.toList ++ back) (present : glue ≠ []) (breaks : Breaks glue) {vs : List α}
    (some : vs ≠ []) (h : ∀ v ∈ vs, p.Writes (write v) v) :
    (Phrase.list (Phrase.symbol symbol) p).Writes (glue.intercalate (vs.map write)) vs := by
  subst shape
  cases vs with
  | nil => exact absurd rfl some
  | cons v vs =>
    have further := many solid hf hb present breaks fun v member => h v (List.mem_cons_of_mem _ member)
    rw [List.map_cons, intercalate_cons]
    refine (h v (by simp)).bind (further.map (v :: ·)) ?_
    cases vs with
    | nil => exact breaks_nil
    | cons w vs =>
      rw [List.map_cons, List.flatMap_cons, List.append_assoc]
      exact breaks_of_prefix present breaks

end Writes

end Phrase

end ChunkSelector
