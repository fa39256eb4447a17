import ChunkSelector.Proofs.Attempts
import ChunkSelector.Proofs.Acceptance

/-!
# Reading in another place

A rule comes to the same wherever a text stands (`Rule.Follows.shifted`), and so does the error that a
trail is turned into, apart from what stands in front of the text.
-/

namespace ChunkSelector

namespace Rule

variable {α β : Type} {rule other : Rule α} {phrase : Phrase α} {k : Nat} {c d : Cursor}

theorem bind_shifted {next : α → Rule β} (first : (rule c).Shifted k (rule d))
    (rest : ∀ a m m', Cursor.Shifted k m m' → (next a m).Shifted k (next a m')) :
    ((rule >>= next) c).Shifted k ((rule >>= next) d) := by
  cases first with
  | noMatch here there trails =>
    rw [bind_of_noMatch here, bind_of_noMatch there]
    exact .noMatch rfl rfl trails
  | matched here there moved trails =>
    rw [bind_of_matched here, bind_of_matched there]
    exact (rest _ _ _ moved).after trails
  | invalid here there trails =>
    rw [bind_of_invalid here, bind_of_invalid there]
    exact .invalid rfl rfl trails

theorem orElse_shifted (left : (rule c).Shifted k (rule d)) (right : (other c).Shifted k (other d)) :
    ((rule <|> other) c).Shifted k ((rule <|> other) d) := by
  cases left with
  | noMatch here there trails =>
    rw [orElse_of_noMatch here, orElse_of_noMatch there]
    exact right.after trails
  | matched here there moved trails =>
    rw [orElse_of_matched here, orElse_of_matched there]
    exact .matched here there moved trails
  | invalid here there trails =>
    rw [orElse_of_invalid here, orElse_of_invalid there]
    exact .invalid here there trails

theorem Follows.shifted (h : Follows rule phrase) (moved : c.Shifted k d) : (rule c).Shifted k (rule d) := by
  induction h generalizing c d with
  | terminal takes _ => exact takes.shifted moved
  | pure value => exact .matched rfl rfl moved .empty
  | bind _ _ ihFirst ihRest => exact bind_shifted (ihFirst moved) fun a m m' => ihRest a
  | orElse _ _ ihLeft ihRight => exact orElse_shifted (ihLeft moved) (ihRight moved)
  | @many α item p follows solid ih =>
    have consumes := follows.consumes solid
    induction c using many_induction consumes generalizing d with
    | ends c stops =>
      cases ih moved with
      | matched here _ _ _ => exact absurd here (stops _ _)
      | noMatch here there trails =>
        rw [many_of_noMatch here, many_of_noMatch there]
        exact .matched rfl rfl moved trails
      | invalid here there trails =>
        rw [many_of_invalid here, many_of_invalid there]
        exact .invalid rfl rfl trails
    | goes c v e first ihRest =>
      cases ih moved with
      | noMatch here _ _ => cases first.symm.trans here
      | invalid here _ _ => cases first.symm.trans here
      | matched here there behind trails =>
        rw [many_of_matched consumes here, many_of_matched consumes there]
        cases first.symm.trans here
        exact (bind_shifted (ihRest behind) fun as _ _ later => .matched rfl rfl later .empty).after trails

theorem toEnd_shifted (follows : Follows rule phrase) (moved : c.Shifted k d) : (rule.toEnd c).Shifted k (rule.toEnd d) := by
  refine bind_shifted (follows.shifted moved) fun v m m' later => ?_
  have ends : (Token.endOfInput m).Shifted k (Token.endOfInput m') :=
    Token.lexeme_shifted later fun text after => Token.shifted_matched () (later.past text after)
  exact bind_shifted ends fun _ _ _ last => .matched rfl rfl last .empty

end Rule

/-! ### The error of a text that stands behind another -/

theorem splitAtOffset_behind (front text : List Char) (n : Nat) :
    splitAtOffset (front ++ text) (n + utf8Length front) =
      (front ++ (splitAtOffset text n).1, (splitAtOffset text n).2) := by
  induction front with
  | nil => simp [utf8Length]
  | cons c front ih =>
    have positive : 0 < c.utf8Size := Char.utf8Size_pos c
    have size : n + utf8Length (c :: front) = (n + utf8Length front + c.utf8Size - 1) + 1 := by
      simp only [utf8Length]
      omega
    have less : n + utf8Length front + c.utf8Size - 1 + 1 - c.utf8Size = n + utf8Length front := by omega
    rw [List.cons_append, size, splitAtOffset, less, ih]
    rfl

namespace Trail

variable {front text : List Char} {n : Nat}

theorem lastVisible_append (a b : List Char) : lastVisible (a ++ b) = (lastVisible b).or (lastVisible a) := by
  unfold lastVisible
  rw [List.reverse_append, List.find?_append]

theorem lastVisible_eq_none_iff : lastVisible text = none ↔ Blank text := by
  unfold lastVisible Blank
  simp

theorem mem_lastVisible {c : Char} (h : lastVisible text = some c) : c ∈ text ∧ isBlank c = false := by
  unfold lastVisible at h
  exact ⟨List.mem_reverse.mp (List.mem_of_find?_eq_some h), by simpa using List.find?_some h⟩

theorem lastVisible_eq_some_iff {c : Char} : lastVisible text = some c ↔
    ∃ front blanks, text = front ++ c :: blanks ∧ Blank blanks ∧ isBlank c = false := by
  constructor
  · intro last
    obtain ⟨visible, behind, front, same, blank⟩ := List.find?_eq_some_iff_append.mp last
    refine ⟨front.reverse, behind.reverse, ?_, fun d member => ?_, by simpa using visible⟩
    · rw [← List.reverse_reverse text, same]
      simp
    · simpa using blank d (List.mem_reverse.mp member)
  · rintro ⟨front, blanks, rfl, blank, visible⟩
    rw [List.append_cons, lastVisible_append, lastVisible_eq_none_iff.mpr blank, Option.none_or, lastVisible_append]
    simp [lastVisible, visible]

theorem kindBetween_of_visible {before after : List Char} {expected : List Expected}
    (other : after.head?.all isSeparator = false) : kindBetween before after expected = .expected expected := by
  unfold kindBetween
  split
  · rw [other, Bool.and_false]
    rfl
  · rfl

theorem stoppedOn_behind (token : Overlong) :
    stoppedOn (front ++ text) (n + utf8Length front) (token.shift (utf8Length front)) = stoppedOn text n token := by
  unfold stoppedOn
  simp only [Overlong.shift, splitAtOffset_behind, Nat.add_sub_add_right, Nat.add_le_add_iff_right]
  congr 1
  exact Bool.eq_iff_iff.mpr (by simp)

theorem filter_getLast_append {a b : List Overlong} {p : Overlong → Bool} (away : ∀ token ∈ a, p token = false) :
    (a ++ b).getLast?.filter p = b.getLast?.filter p := by
  cases last : b.getLast? with
  | some token => simp [List.getLast?_append, last]
  | none =>
    obtain rfl := List.getLast?_eq_none_iff.mp last
    rw [List.append_nil]
    refine Option.filter_eq_none_iff.mpr fun token member => ?_
    rw [away token (List.mem_of_getLast? member)]
    simp

/-- The trail of a text, found again when the text is read behind another. -/
structure Behind (front text : List Char) (trail trail' : Trail) : Prop where
  furthest : trail'.furthest = trail.furthest + utf8Length front
  expected : trail'.expected = trail.expected
  overlong : ∃ before, trail'.overlong = before ++ trail.overlong.map (Overlong.shift (utf8Length front)) ∧
    ∀ token ∈ before, stoppedOn (front ++ text) trail'.furthest token = false

variable {trail trail' : Trail}

theorem Behind.stopped (h : Behind front text trail trail') :
    trail'.overlong.getLast?.filter (stoppedOn (front ++ text) trail'.furthest) =
      (trail.overlong.getLast?.filter (stoppedOn text trail.furthest)).map (Overlong.shift (utf8Length front)) := by
  obtain ⟨before, overlong, away⟩ := h.overlong
  rw [overlong, filter_getLast_append away, List.getLast?_map, h.furthest, Option.filter_map]
  congr 2
  funext token
  exact stoppedOn_behind token

/-- The error is the same, unless what stands in front makes it one about an empty section. -/
theorem Behind.diagnose (h : Behind front text trail trail')
    (kind : kindBetween (front ++ (splitAtOffset text trail.furthest).1) (splitAtOffset text trail.furthest).2 trail.expected =
      kindBetween (splitAtOffset text trail.furthest).1 (splitAtOffset text trail.furthest).2 trail.expected) :
    trail'.diagnose (front ++ text) = (trail.diagnose text).shift (utf8Length front) := by
  unfold Trail.diagnose
  rw [h.stopped]
  cases trail.overlong.getLast?.filter (stoppedOn text trail.furthest) with
  | some token => rfl
  | none =>
    simp only [Option.map_none, h.furthest, h.expected, splitAtOffset_behind, kind]
    rfl

/-- Between blanks and a separator the error is about the separator in front. -/
theorem Behind.diagnose_of_blank {c : Char} {u x : List Char} (h : Behind (front ++ [c]) text trail trail')
    (nothing : trail.overlong = []) (split : text = u ++ x) (length : utf8Length u = trail.furthest) (blank : Blank u)
    (separator : isSeparator c = true) (visible : isBlank c = false) (next : x.head?.all isSeparator = true) :
    trail'.diagnose (front ++ [c] ++ text) =
      ⟨trail.furthest + utf8Length (front ++ [c]), .emptySection c, (trail.diagnose text).found⟩ := by
  have cut : splitAtOffset text trail.furthest = (u, x) := by rw [← length, split, splitAtOffset_append]
  have last : lastVisible (front ++ [c] ++ u) = some c :=
    lastVisible_eq_some_iff.mpr ⟨front, u, by simp, blank, visible⟩
  unfold Trail.diagnose
  rw [h.stopped, nothing]
  simp only [List.getLast?_nil, Option.filter_none, Option.map_none, h.furthest, h.expected, splitAtOffset_behind, cut,
    kindBetween, last, separator, next, Bool.and_self, if_true]

end Trail

end ChunkSelector
