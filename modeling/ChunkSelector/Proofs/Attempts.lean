import ChunkSelector.Proofs.Lookahead

/-!
# Attempts

What a rule that follows a phrase leaves in its trail. Whatever it remembers was tried where the phrase
may go on with it (`Follows.records`), so with each attempt (`Follows.made`) and each overlong token
(`Follows.recalls`), and an invalid literal stands at such a place too (`Follows.faulty`). A failure remembers an attempt (`Follows.noMatch_trail`), and
the rule knows nothing of the text behind the last one (`Follows.locked`).
-/

namespace ChunkSelector

namespace Trail

/-- The trail is made of attempts with a certain property. -/
inductive Made (P : Nat → Expected → Prop) : Trail → Prop where
  | empty : Made P .empty
  | attempt {t : Trail} {e : Expected} (one : t.expected = [e]) (made : P t.furthest e) : Made P t
  | append {a b : Trail} (left : Made P a) (right : Made P b) : Made P (a ++ b)

variable {P Q : Nat → Expected → Prop} {a b t : Trail} {e : Expected}

theorem Made.imp (h : Made P t) (weaker : ∀ n e, P n e → Q n e) : Made Q t := by
  induction h with
  | empty => exact .empty
  | attempt one made => exact .attempt one (weaker _ _ made)
  | append _ _ ihLeft ihRight => exact .append ihLeft ihRight

theorem mem_append (h : e ∈ (a ++ b).expected) :
    e ∈ a.expected ∧ (a ++ b).furthest = a.furthest ∨ e ∈ b.expected ∧ (a ++ b).furthest = b.furthest := by
  simp only [append_def, join] at h ⊢
  split at h
  · exact .inr ⟨h, by omega⟩
  · split at h
    · rcases mem_joinExpected.mp h with left | right
      · exact .inl ⟨left, by omega⟩
      · exact .inr ⟨right, by omega⟩
    · exact .inl ⟨h, by omega⟩

theorem Made.of_mem (h : Made P t) (member : e ∈ t.expected) : P t.furthest e := by
  induction h with
  | empty => cases member
  | attempt one made =>
    rw [one] at member
    obtain rfl := List.mem_singleton.mp member
    exact made
  | append _ _ ihLeft ihRight =>
    rcases mem_append member with ⟨left, same⟩ | ⟨right, same⟩
    · rw [same]
      exact ihLeft left
    · rw [same]
      exact ihRight right

theorem nodup_joinExpected {left right : List Expected} (hl : left.Nodup) (hr : right.Nodup) :
    (joinExpected left right).Nodup := by
  refine List.nodup_append.mpr ⟨hl, hr.filter _, ?_⟩
  rintro e inside _ member rfl
  simp [inside] at member

theorem Made.nodup (h : Made P t) : t.expected.Nodup := by
  induction h with
  | empty => exact List.nodup_nil
  | attempt one _ => simp [one]
  | append _ _ ihLeft ihRight =>
    simp only [append_def, join]
    split
    · exact ihRight
    · split
      · exact nodup_joinExpected ihLeft ihRight
      · exact ihLeft

theorem Made.furthest_eq_zero (h : Made P t) (none : t.expected = []) : t.furthest = 0 := by
  induction h with
  | empty => rfl
  | attempt one _ =>
    rw [one] at none
    cases none
  | @append a b _ _ ihLeft ihRight =>
    simp only [append_def, join] at none ⊢
    split at none
    · have := ihRight none
      omega
    · split at none
      · obtain ⟨nothing, -⟩ := List.append_eq_nil_iff.mp none
        have := ihLeft nothing
        omega
      · have := ihLeft none
        omega

theorem expected_eq_nil_of_append (left : Made P a) (right : Made Q b) (none : (a ++ b).expected = []) :
    a.expected = [] ∧ b.expected = [] := by
  simp only [append_def, join] at none
  split at none
  · have := right.furthest_eq_zero none
    omega
  · split at none
    · obtain ⟨nothing, filtered⟩ := List.append_eq_nil_iff.mp none
      refine ⟨nothing, ?_⟩
      rwa [nothing, List.filter_eq_self.mpr (by simp)] at filtered
    · have := left.furthest_eq_zero none
      omega

/-- Two trails with the same furthest attempts. -/
def Same (a b : Trail) : Prop := a.furthest = b.furthest ∧ a.expected = b.expected

theorem Same.append {c d : Trail} (left : Same a b) (right : Same c d) : Same (a ++ c) (b ++ d) := by
  obtain ⟨furthest, expected⟩ := left
  obtain ⟨furthest', expected'⟩ := right
  simp only [Same, append_def, join, furthest, expected, furthest', expected', and_self]

theorem le_append_left : a.furthest ≤ (a ++ b).furthest := Nat.le_max_left _ _

theorem le_append_right : b.furthest ≤ (a ++ b).furthest := Nat.le_max_right _ _

/-- Each overlong token in the trail has a certain property, and none begins behind the last attempt. -/
def Recalls (P : Overlong → Prop) (t : Trail) : Prop := ∀ token ∈ t.overlong, token.start ≤ t.furthest ∧ P token

theorem Recalls.append {P : Overlong → Prop} (left : Recalls P a) (right : Recalls P b) : Recalls P (a ++ b) := by
  intro token member
  rcases List.mem_append.mp member with here | there
  · obtain ⟨within, holds⟩ := left token here
    exact ⟨Nat.le_trans within le_append_left, holds⟩
  · obtain ⟨within, holds⟩ := right token there
    exact ⟨Nat.le_trans within le_append_right, holds⟩

/-- The trail is made of attempts at cursors of a certain kind, with the tokens that were overlong there. -/
inductive Records (V : Expected → Cursor → Prop) : Trail → Prop where
  | empty : Records V .empty
  | attempt {t : Trail} {e : Expected} {c : Cursor} (visits : V e c) (furthest : t.furthest = c.skipBlanks.offset)
      (expected : t.expected = [e])
      (overlong : ∀ token ∈ t.overlong, e = .token .attributeIndex ∧ token.StandsAt c.skipBlanks) : Records V t
  | append {a b : Trail} (left : Records V a) (right : Records V b) : Records V (a ++ b)

variable {V W : Expected → Cursor → Prop}

theorem Records.imp (h : Records V t) (weaker : ∀ e c, V e c → W e c) : Records W t := by
  induction h with
  | empty => exact .empty
  | attempt visits furthest expected overlong => exact .attempt (weaker _ _ visits) furthest expected overlong
  | append _ _ ihLeft ihRight => exact .append ihLeft ihRight

theorem Records.made (h : Records V t) : Made (fun n e => ∃ c : Cursor, V e c ∧ c.skipBlanks.offset = n) t := by
  induction h with
  | empty => exact .empty
  | attempt visits furthest expected _ => exact .attempt expected ⟨_, visits, furthest.symm⟩
  | append _ _ ihLeft ihRight => exact .append ihLeft ihRight

theorem Records.recalls (h : Records V t) :
    Recalls (fun token => ∃ c : Cursor, V (.token .attributeIndex) c ∧ token.StandsAt c.skipBlanks) t := by
  induction h with
  | empty =>
    intro token member
    cases member
  | attempt visits furthest _ overlong =>
    intro token member
    obtain ⟨rfl, stands⟩ := overlong token member
    exact ⟨Nat.le_of_eq (stands.start.trans furthest.symm), _, visits, stands⟩
  | append _ _ ihLeft ihRight => exact ihLeft.append ihRight

end Trail

/-! ### What a phrase tries -/

namespace Phrase

variable {α β : Type} {p : Phrase α} {ts us : List Terminal} {e : Expected}

theorem Viable.bind_left {next : α → Phrase β} (h : p.Viable ts e) (further : ∀ a, (next a).Productive) :
    (p >>= next).Viable ts e := by
  obtain ⟨t, more, a, kind, read⟩ := h
  obtain ⟨rest, v, tail⟩ := further a
  exact ⟨t, more ++ rest, v, kind, ts ++ t :: more, rest, a, by simp, read, tail⟩

theorem Viable.bind_right {next : α → Phrase β} {a : α} (head : p ts a) (h : (next a).Viable us e) :
    (p >>= next).Viable (ts ++ us) e := by
  obtain ⟨t, more, v, kind, read⟩ := h
  exact ⟨t, more, v, kind, ts, us ++ t :: more, a, by simp, head, read⟩

theorem Viable.many_first (h : p.Viable ts e) : p.many.Viable ts e := by
  obtain ⟨t, more, a, kind, read⟩ := h
  have one : p.many (ts ++ t :: more ++ []) [a] := .cons read .nil
  rw [List.append_nil] at one
  exact ⟨t, more, [a], kind, one⟩

theorem Viable.many_rest {a : α} (head : p ts a) (h : p.many.Viable us e) : p.many.Viable (ts ++ us) e := by
  obtain ⟨t, more, as, kind, read⟩ := h
  have longer : p.many (ts ++ (us ++ t :: more)) (a :: as) := .cons head read
  rw [← List.append_assoc] at longer
  exact ⟨t, more, a :: as, kind, longer⟩

/-- From the cursor on, the phrase has a terminal of the class at the offset. -/
def Tries (p : Phrase α) (c : Cursor) (offset : Nat) (e : Expected) : Prop :=
  ∃ ts d, c.Passes ts d ∧ d.skipBlanks.offset = offset ∧ p.Viable ts e

/-- Between the two cursors the phrase is begun, and it may go on with a terminal of the class. -/
def Visits (p : Phrase α) (c : Cursor) (e : Expected) (m : Cursor) : Prop := ∃ ts, c.Passes ts m ∧ p.Viable ts e

variable {q : Phrase β} {c d m : Cursor}

theorem Visits.tries (h : p.Visits c e m) : p.Tries c m.skipBlanks.offset e := by
  obtain ⟨ts, passes, viable⟩ := h
  exact ⟨ts, m, passes, rfl, viable⟩

theorem Visits.imp (h : p.Visits c e m) (further : ∀ ts, p.Viable ts e → q.Viable ts e) : q.Visits c e m := by
  obtain ⟨ts, passes, viable⟩ := h
  exact ⟨ts, passes, further ts viable⟩

theorem Visits.behind (front : c.Passes ts d) (h : q.Visits d e m)
    (further : ∀ us, q.Viable us e → p.Viable (ts ++ us) e) : p.Visits c e m := by
  obtain ⟨us, passes, viable⟩ := h
  exact ⟨ts ++ us, front.append passes, further us viable⟩

/-- The token stands where the phrase may have an attribute. -/
def Declines (p : Phrase α) (c : Cursor) (token : Overlong) : Prop :=
  ∃ m, p.Visits c (.token .attributeIndex) m ∧ token.StandsAt m.skipBlanks

theorem visits_of_terminal {kind : Expected} {means : List Char → α → Prop} (productive : (terminal kind means).Productive)
    (c : Cursor) : (terminal kind means).Visits c kind c := by
  obtain ⟨ts, v, text, rfl, meant⟩ := productive
  exact ⟨[], Cursor.passes_nil_iff.mpr rfl, ⟨kind, text⟩, [], v, rfl, text, rfl, meant⟩

end Phrase

namespace Rule

variable {α β : Type} {rule : Rule α} {phrase : Phrase α} {c d : Cursor} {v : α}

theorem map_trail (f : α → β) (rule : Rule α) (c : Cursor) : ((f <$> rule : Rule β) c).trail = (rule c).trail := by
  change ((rule >>= fun a => pure (f a)) c).trail = _
  cases verdict : (rule c).verdict with
  | matched v d =>
    rw [bind_of_matched verdict]
    exact Trail.append_empty _
  | noMatch => rw [bind_of_noMatch verdict]
  | invalid error d => rw [bind_of_invalid verdict]

theorem many_trail (consumes : rule.Consumes) (h : (rule c).verdict = .matched v d) :
    (rule.many c).trail = (rule c).trail ++ (rule.many d).trail := by
  rw [many_of_matched consumes h]
  exact congrArg ((rule c).trail ++ ·) (map_trail (v :: ·) rule.many d)

theorem many_trail_of_not_matched (h : ∀ v d, (rule c).verdict ≠ .matched v d) :
    (rule.many c).trail = (rule c).trail := by
  cases verdict : (rule c).verdict with
  | matched v d => exact absurd verdict (h v d)
  | noMatch => rw [many_of_noMatch verdict]
  | invalid error d => rw [many_of_invalid verdict]

theorem many_ne_noMatch : (rule.many c).verdict ≠ .noMatch := by
  unfold many
  dsimp only
  split <;> simp

theorem many_induction (consumes : rule.Consumes) {P : Cursor → Prop}
    (ends : ∀ c, (∀ v d, (rule c).verdict ≠ .matched v d) → P c)
    (goes : ∀ c v d, (rule c).verdict = .matched v d → P d → P c) (c : Cursor) : P c := by
  induction size : c.rest.length using Nat.strongRecOn generalizing c with
  | ind n ih =>
    cases first : (rule c).verdict with
    | matched v d => exact goes c v d first (ih _ (size ▸ consumes _ _ _ first) d rfl)
    | noMatch => exact ends c (by simp [first])
    | invalid error d => exact ends c (by simp [first])

namespace Follows

/-- Whatever the trail remembers was tried where the phrase may go on with it. -/
theorem records (h : Follows rule phrase) (c : Cursor) : (rule c).trail.Records (phrase.Visits c) := by
  induction h generalizing c with
  | @terminal α rule kind means starts takes productive =>
    cases verdict : (rule c).verdict with
    | matched v d =>
      rw [(takes.matched verdict).1]
      exact .empty
    | noMatch =>
      obtain ⟨furthest, expected⟩ := takes.noMatch verdict
      exact .attempt (Phrase.visits_of_terminal productive c) furthest expected fun token member => (takes.overlong member).2
    | invalid error d =>
      rw [(takes.invalid verdict).1]
      exact .empty
  | pure value => exact .empty
  | @bind α β rule p next further first rest ihFirst ihRest =>
    have here : (rule c).trail.Records ((p >>= further).Visits c) :=
      (ihFirst c).imp fun e m visits => visits.imp fun ts viable => viable.bind_left fun a => (rest a).productive
    cases verdict : (rule c).verdict with
    | matched a d =>
      rw [bind_of_matched verdict]
      obtain ⟨ts, front, read⟩ := first.sound verdict
      exact .append here ((ihRest a d).imp fun e m visits => visits.behind front fun us viable => viable.bind_right read)
    | noMatch =>
      rw [bind_of_noMatch verdict]
      exact here
    | invalid error d =>
      rw [bind_of_invalid verdict]
      exact here
  | @orElse α rule other p q _ _ ihLeft ihRight =>
    have here : (rule c).trail.Records ((p.either q).Visits c) :=
      (ihLeft c).imp fun e m visits => visits.imp fun ts viable => Phrase.viable_either_iff.mpr (.inl viable)
    cases verdict : (rule c).verdict with
    | matched a d =>
      rw [orElse_of_matched verdict]
      exact here
    | noMatch =>
      rw [orElse_of_noMatch verdict]
      refine .append here ((ihRight c).imp fun e m visits => ?_)
      exact visits.imp fun ts viable => Phrase.viable_either_iff.mpr (.inr viable)
    | invalid error d =>
      rw [orElse_of_invalid verdict]
      exact here
  | @many α item p follows solid ih =>
    have consumes := follows.consumes solid
    have here : ∀ c, (item c).trail.Records (p.many.Visits c) :=
      fun c => (ih c).imp fun e m visits => visits.imp fun ts viable => viable.many_first
    induction c using many_induction consumes with
    | ends c stops =>
      rw [many_trail_of_not_matched stops]
      exact here c
    | goes c v d first ihRest =>
      rw [many_trail consumes first]
      obtain ⟨ts, front, read⟩ := follows.sound first
      refine .append (here c) (ihRest.imp fun e m visits => ?_)
      exact visits.behind front fun us viable => viable.many_rest read

/-- Every attempt in the trail is one that the phrase has there. -/
theorem made (h : Follows rule phrase) (c : Cursor) : (rule c).trail.Made (phrase.Tries c) := by
  refine (h.records c).made.imp fun n e tried => ?_
  obtain ⟨m, visits, rfl⟩ := tried
  exact visits.tries

/-- An overlong token stands where the phrase may have an attribute. -/
theorem recalls (h : Follows rule phrase) (c : Cursor) : (rule c).trail.Recalls (phrase.Declines c) := (h.records c).recalls

/-- A failure remembers an attempt that it made, at its cursor or further on. -/
theorem noMatch_trail (h : Follows rule phrase) {c : Cursor} (failed : (rule c).verdict = .noMatch) :
    (rule c).trail.expected ≠ [] ∧ c.offset ≤ (rule c).trail.furthest := by
  induction h generalizing c with
  | terminal takes _ =>
    obtain ⟨furthest, expected⟩ := takes.noMatch failed
    rw [furthest, expected]
    exact ⟨by simp, c.offset_le_skipBlanks⟩
  | pure value => cases failed
  | @bind α β rule p next further first rest ihFirst ihRest =>
    cases verdict : (rule c).verdict with
    | matched a d =>
      rw [bind_of_matched verdict] at failed ⊢
      obtain ⟨some, behind⟩ := ihRest a failed
      obtain ⟨ts, passes, -⟩ := first.sound verdict
      refine ⟨fun none => some ?_, Nat.le_trans passes.offset_le (Nat.le_trans behind Trail.le_append_right)⟩
      exact (Trail.expected_eq_nil_of_append (first.made c) ((rest a).made d) none).2
    | noMatch =>
      rw [bind_of_noMatch verdict]
      exact ihFirst verdict
    | invalid error d =>
      rw [bind_of_invalid verdict] at failed
      cases failed
  | @orElse α rule other p q left right ihLeft _ =>
    cases verdict : (rule c).verdict with
    | matched a d =>
      rw [orElse_of_matched verdict, verdict] at failed
      cases failed
    | noMatch =>
      rw [orElse_of_noMatch verdict]
      obtain ⟨some, behind⟩ := ihLeft verdict
      refine ⟨fun none => some ?_, Nat.le_trans behind Trail.le_append_left⟩
      exact (Trail.expected_eq_nil_of_append (left.made c) (right.made c) none).1
    | invalid error d =>
      rw [orElse_of_invalid verdict, verdict] at failed
      cases failed
  | many _ _ _ => exact absurd failed many_ne_noMatch

/-- An invalid literal stands where the phrase may have a literal. -/
theorem faulty (h : Follows rule phrase) {c d : Cursor} {error : SyntaxError}
    (invalid : (rule c).verdict = .invalid error d) : ∃ e m, phrase.Visits c e m ∧ Faulty m.skipBlanks error := by
  induction h generalizing c d with
  | @terminal α rule kind means starts takes productive =>
    exact ⟨kind, c, Phrase.visits_of_terminal productive c, (takes.invalid invalid).2⟩
  | pure value => cases invalid
  | bind first rest ihFirst ihRest =>
    rcases bind_invalid invalid with here | ⟨a, m, matched, behind⟩
    · obtain ⟨e, m, visits, fault⟩ := ihFirst here
      exact ⟨e, m, visits.imp fun ts viable => viable.bind_left fun a => (rest a).productive, fault⟩
    · obtain ⟨ts, front, read⟩ := first.sound matched
      obtain ⟨e, m, visits, fault⟩ := ihRest a behind
      exact ⟨e, m, visits.behind front fun us viable => viable.bind_right read, fault⟩
  | orElse _ _ ihLeft ihRight =>
    rcases orElse_invalid invalid with left | right
    · obtain ⟨e, m, visits, fault⟩ := ihLeft left
      exact ⟨e, m, visits.imp fun ts viable => Phrase.viable_either_iff.mpr (.inl viable), fault⟩
    · obtain ⟨e, m, visits, fault⟩ := ihRight right
      exact ⟨e, m, visits.imp fun ts viable => Phrase.viable_either_iff.mpr (.inr viable), fault⟩
  | @many α item p follows solid ih =>
    have consumes := follows.consumes solid
    induction c using many_induction consumes with
    | ends c stops =>
      cases verdict : (item c).verdict with
      | matched a e => exact absurd verdict (stops a e)
      | noMatch =>
        rw [many_of_noMatch verdict] at invalid
        cases invalid
      | invalid error' e =>
        rw [many_of_invalid verdict] at invalid
        cases invalid
        obtain ⟨e, m, visits, fault⟩ := ih verdict
        exact ⟨e, m, visits.imp fun ts viable => viable.many_first, fault⟩
    | goes c a d first ihRest =>
      rw [many_of_matched consumes first] at invalid
      rcases bind_invalid invalid with rest | ⟨as, m, -, finish⟩
      · obtain ⟨ts, front, read⟩ := follows.sound first
        obtain ⟨e, m, visits, fault⟩ := ihRest rest
        exact ⟨e, m, visits.behind front fun us viable => viable.many_rest read, fault⟩
      · cases finish

end Follows

end Rule

/-! ### Up to a mark -/

/-- The same place in two texts: one goes on with `x` at the offset `n`, the other has a mark there. -/
def Cursor.Marks (x : List Char) (n : Nat) (c c' : Cursor) : Prop :=
  ∃ p, c.rest = p ++ x ∧ c.offset + utf8Length p = n ∧ c' = ⟨c.offset, p ++ ['#']⟩ ∧ NoSplit p x

theorem stops_mark : Stops ['#'] := by
  intro c member
  obtain rfl : '#' = c := by simpa using member
  decide

theorem noSplit_of_suffix {p q x : List Char} (h : NoSplit (p ++ q) x) : NoSplit q x := by
  cases q with
  | nil => simp [NoSplit]
  | cons c q => exact (noSplit_append_left (by simp)).mp h

section marks

variable {x : List Char} {n : Nat} {c c' d : Cursor}

theorem Cursor.Marks.skipBlanks (marks : Cursor.Marks x n c c') (visible : ∀ ch ∈ x.head?, isBlank ch = false) :
    Cursor.Marks x n c.skipBlanks c'.skipBlanks := by
  obtain ⟨p, rest, offset, rfl, border⟩ := marks
  obtain ⟨start, _⟩ := c
  dsimp only at rest offset
  subst rest
  have blank : Blank (p.takeWhile isBlank) := mem_takeWhile_holds
  have split : p.takeWhile isBlank ++ p.dropWhile isBlank = p := List.takeWhile_append_dropWhile
  have stop := head_dropWhile_stops isBlank p
  have ahead : ∀ y : List Char, (∀ ch ∈ y.head?, isBlank ch = false) →
      Cursor.skipBlanks ⟨start, p ++ y⟩ = ⟨start + utf8Length (p.takeWhile isBlank), p.dropWhile isBlank ++ y⟩ := by
    intro y first
    have shown : ∀ ch ∈ (p.dropWhile isBlank ++ y).head?, isBlank ch = false := by
      cases inside : p.dropWhile isBlank with
      | nil => exact first
      | cons ch q =>
        rw [inside] at stop
        exact stop
    rw [← Cursor.skipBlanks_of_blank blank shown start, ← List.append_assoc, split]
  rw [ahead x visible, ahead ['#'] (by simp; decide)]
  refine ⟨p.dropWhile isBlank, rfl, ?_, rfl, noSplit_of_suffix (by rw [split]; exact border)⟩
  have length := congrArg utf8Length split
  rw [utf8Length_append] at length
  dsimp only
  omega

theorem Cursor.Marks.textLength (marks : Cursor.Marks x n c c') : c'.textLength = n + 1 := by
  obtain ⟨p, -, offset, rfl, -⟩ := marks
  have mark : utf8Length ['#'] = 1 := rfl
  simp only [Cursor.textLength, utf8Length_append, mark]
  omega

theorem Cursor.Marks.later (marks : Cursor.Marks x n c c') (suffix : d.rest <:+ c.rest)
    (length : d.textLength = c.textLength) (inside : d.offset ≤ n) : ∃ d', Cursor.Marks x n d d' := by
  obtain ⟨p, rest, offset, rfl, border⟩ := marks
  have total : d.offset + utf8Length d.rest = n + utf8Length x := by
    simp only [Cursor.textLength, rest, utf8Length_append] at length
    omega
  obtain ⟨q, same⟩ : x <:+ d.rest := by
    rcases List.suffix_or_suffix_of_suffix suffix ⟨p, rest.symm⟩ with ⟨r, beyond⟩ | inside
    · -- The other text cannot begin further on.
      have sizes := congrArg utf8Length beyond
      rw [utf8Length_append] at sizes
      cases r with
      | nil => exact ⟨[], beyond.symm⟩
      | cons ch r =>
        have := utf8Length_pos (by simp : ch :: r ≠ [])
        omega
    · exact inside
  have sizes := congrArg utf8Length same
  rw [utf8Length_append] at sizes
  refine ⟨⟨d.offset, q ++ ['#']⟩, q, same.symm, by omega, rfl, ?_⟩
  rw [rest, ← same] at suffix
  obtain ⟨front, split⟩ := suffix
  rw [← List.append_assoc] at split
  rw [← List.append_cancel_right split] at border
  exact noSplit_of_suffix border

end marks

namespace Step

variable {α β : Type} {s t s' t' : Step α} {x : List Char} {n : Nat}

/-- No attempt was made behind an offset, and no match goes past it. -/
structure Within (n : Nat) (s : Step α) : Prop where
  trail : s.trail.furthest ≤ n
  matched {v : α} {d : Cursor} : s.verdict = .matched v d → d.offset ≤ n
  valid {error : SyntaxError} {d : Cursor} : s.verdict ≠ .invalid error d

/-- Two steps that come to the same, each in its own text. -/
inductive Locked (x : List Char) (n : Nat) (s s' : Step α) : Prop where
  | noMatch (here : s.verdict = .noMatch) (there : s'.verdict = .noMatch) (trails : s.trail.Same s'.trail)
  | matched {v : α} {d d' : Cursor} (here : s.verdict = .matched v d) (there : s'.verdict = .matched v d')
      (marks : Cursor.Marks x n d d') (trails : s.trail.Same s'.trail)

theorem Locked.after {before before' : Trail} (same : before.Same before') (h : Locked x n s s') :
    Locked x n (s.after before) (s'.after before') := by
  cases h with
  | noMatch here there trails => exact .noMatch here there (same.append trails)
  | matched here there marks trails => exact .matched here there marks (same.append trails)

theorem Within.of_after {before : Trail} (h : (s.after before).Within n) : before.furthest ≤ n ∧ s.Within n :=
  ⟨Nat.le_trans Trail.le_append_left h.trail, Nat.le_trans Trail.le_append_right h.trail, h.matched, h.valid⟩

theorem Within.of_matched {v : α} {d : Cursor} (here : s.verdict = .matched v d) (trail : s.trail.furthest ≤ n)
    (next : d.offset ≤ n) : s.Within n where
  trail := trail
  matched there := by
    cases here.symm.trans there
    exact next
  valid invalid := by cases here.symm.trans invalid

theorem Within.of_noMatch (here : s.verdict = .noMatch) (trail : s.trail.furthest ≤ n) : s.Within n where
  trail := trail
  matched matched := by cases here.symm.trans matched
  valid invalid := by cases here.symm.trans invalid

theorem Locked.of_matched {v : α} {d : Cursor} (h : Locked x n s s') (here : s.verdict = .matched v d) :
    ∃ d', s'.verdict = .matched v d' ∧ Cursor.Marks x n d d' ∧ s.trail.Same s'.trail := by
  cases h with
  | noMatch failed _ _ => cases failed.symm.trans here
  | matched found there marks trails =>
    cases found.symm.trans here
    exact ⟨_, there, marks, trails⟩

theorem Locked.of_noMatch (h : Locked x n s s') (here : s.verdict = .noMatch) :
    s'.verdict = .noMatch ∧ s.trail.Same s'.trail := by
  cases h with
  | noMatch _ there trails => exact ⟨there, trails⟩
  | matched found _ _ _ => cases found.symm.trans here

end Step

namespace Rule

variable {α β : Type} {rule : Rule α} {phrase : Phrase α} {kind : Expected} {means : List Char → α → Prop}
  {starts : Char → Prop} {x : List Char} {n : Nat} {c c' d : Cursor} {v : α}

open Step (Locked)

theorem Takes.locked (takes : rule.Takes kind means starts) (visible : ∀ ch ∈ x.head?, isBlank ch = false)
    (marks : Cursor.Marks x n c c') (within : (rule c).Within n) : Locked x n (rule c) (rule c') := by
  have skipped := marks.skipBlanks visible
  cases verdict : (rule c).verdict with
  | matched v d =>
    obtain ⟨trail, length, text, same, meant, closed⟩ := takes.matched verdict
    obtain ⟨d', later⟩ := skipped.later ⟨text, same.symm⟩ (by simpa using length) (within.matched verdict)
    obtain ⟨p, rest, -, there, -⟩ := id skipped
    obtain ⟨q, rest', -, there', -⟩ := id later
    rw [same, rest', ← List.append_assoc] at rest
    rw [rest'] at closed
    have cut : c'.skipBlanks.rest = text ++ (q ++ ['#']) := by
      rw [there, ← List.append_cancel_right rest, List.append_assoc]
    obtain ⟨e, matched, stop⟩ := takes.reads meant cut (Terminal.closed_exchange closed stops_mark)
    obtain ⟨trail', length', -⟩ := takes.matched matched
    have here : e = d' := by
      refine Cursor.ext_of_rest (by rw [stop, there']) ?_
      rw [length', later.textLength, marks.textLength]
    exact .matched verdict (by rw [matched, here]) later (by rw [trail, trail']; exact ⟨rfl, rfl⟩)
  | noMatch =>
    obtain ⟨p, rest, -, there, border⟩ := id skipped
    have failed : (rule c').verdict = .noMatch := by
      cases p with
      | nil =>
        apply takes.noMatch_of_mark
        rw [lead, ← Cursor.rest_skipBlanks, there]
        rfl
      | cons ch p => exact takes.persists rest (by rw [there]) (by simp) border stops_mark verdict
    obtain ⟨furthest, expected⟩ := takes.noMatch verdict
    obtain ⟨furthest', expected'⟩ := takes.noMatch failed
    refine .noMatch verdict failed ⟨?_, expected.trans expected'.symm⟩
    rw [furthest, furthest', there]
  | invalid error d => exact absurd verdict within.valid

theorem bind_locked {next : α → Rule β} (first : (rule c).Within n → Locked x n (rule c) (rule c'))
    (rest : ∀ a d d', Cursor.Marks x n d d' → (next a d).Within n → Locked x n (next a d) (next a d'))
    (starts : ∀ a d, (next a d).Within n → d.offset ≤ n) (within : ((rule >>= next) c).Within n) :
    Locked x n ((rule >>= next) c) ((rule >>= next) c') := by
  cases verdict : (rule c).verdict with
  | matched a d =>
    rw [bind_of_matched verdict] at within ⊢
    obtain ⟨trail, behind⟩ := within.of_after
    obtain ⟨d', there, marks, trails⟩ := (first (.of_matched verdict trail (starts a d behind))).of_matched verdict
    rw [bind_of_matched there]
    exact (rest a d d' marks behind).after trails
  | noMatch =>
    rw [bind_of_noMatch verdict] at within ⊢
    obtain ⟨there, trails⟩ := (first (.of_noMatch verdict within.trail)).of_noMatch verdict
    rw [bind_of_noMatch there]
    exact .noMatch rfl rfl trails
  | invalid error d =>
    rw [bind_of_invalid verdict] at within
    exact absurd rfl within.valid

namespace Follows

theorem offset_le_of_within (h : Follows rule phrase) (within : (rule c).Within n) : c.offset ≤ n := by
  cases verdict : (rule c).verdict with
  | matched v d =>
    obtain ⟨ts, passes, -⟩ := h.sound verdict
    exact Nat.le_trans passes.offset_le (within.matched verdict)
  | noMatch => exact Nat.le_trans (h.noMatch_trail verdict).2 within.trail
  | invalid error d => exact absurd verdict within.valid

/-- A rule does not look behind its last attempt: with a mark there it does the same. -/
theorem locked (h : Follows rule phrase) (visible : ∀ ch ∈ x.head?, isBlank ch = false)
    (marks : Cursor.Marks x n c c') (within : (rule c).Within n) : Locked x n (rule c) (rule c') := by
  induction h generalizing c c' with
  | terminal takes _ => exact takes.locked visible marks within
  | pure value => exact .matched rfl rfl marks ⟨rfl, rfl⟩
  | bind first rest ihFirst ihRest =>
    exact bind_locked (ihFirst marks) (fun a _ _ => ihRest a) (fun a _ => (rest a).offset_le_of_within) within
  | @orElse α rule other p q left right ihLeft ihRight =>
    cases verdict : (rule c).verdict with
    | matched a d =>
      rw [orElse_of_matched verdict] at within ⊢
      obtain ⟨d', there, marks', trails⟩ := (ihLeft marks within).of_matched verdict
      rw [orElse_of_matched there]
      exact .matched verdict there marks' trails
    | noMatch =>
      rw [orElse_of_noMatch verdict] at within ⊢
      obtain ⟨trail, behind⟩ := within.of_after
      obtain ⟨there, trails⟩ := (ihLeft marks (.of_noMatch verdict trail)).of_noMatch verdict
      rw [orElse_of_noMatch there]
      exact (ihRight marks behind).after trails
    | invalid error d =>
      rw [orElse_of_invalid verdict] at within
      exact absurd verdict within.valid
  | @many α item p follows solid ih =>
    have consumes := follows.consumes solid
    induction c using many_induction consumes generalizing c' with
    | ends c stops =>
      cases verdict : (item c).verdict with
      | matched a d => exact absurd verdict (stops a d)
      | noMatch =>
        rw [many_of_noMatch verdict] at within ⊢
        obtain ⟨there, trails⟩ := (ih marks (.of_noMatch verdict within.trail)).of_noMatch verdict
        rw [many_of_noMatch there]
        exact .matched rfl rfl marks trails
      | invalid error d =>
        rw [many_of_invalid verdict] at within
        exact absurd rfl within.valid
    | goes c a d first ihRest =>
      rw [many_of_matched consumes first] at within ⊢
      obtain ⟨trail, behind⟩ := within.of_after
      have start : d.offset ≤ n := ((many follows solid).map (a :: ·)).offset_le_of_within behind
      obtain ⟨d', there, marks', trails⟩ := (ih marks (.of_matched first trail start)).of_matched first
      rw [many_of_matched consumes there]
      refine Locked.after trails (bind_locked (ihRest marks') ?_ ?_ behind)
      · exact fun as _ _ later _ => .matched rfl rfl later ⟨rfl, rfl⟩
      · exact fun as _ finish => finish.matched rfl

end Follows

end Rule

end ChunkSelector
