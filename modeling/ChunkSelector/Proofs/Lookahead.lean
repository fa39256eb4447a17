import ChunkSelector.Proofs.Rule

/-!
# Lookahead

One visible character tells a rule what to do next. `Rule.Predicts` says that a rule finds every text
of its phrase that goes on with a character from a given set, and that in front of a mark it attempts
every terminal that the phrase may go on with. It holds of a rule where the characters that the parts
begin with, and go on with, are apart.
-/

namespace ChunkSelector

/-! ### What a failed attempt leaves in a trail -/

/-- The trail remembers that something was expected at the offset, or an attempt further on. -/
def Trail.Reaches (t : Trail) (offset : Nat) (e : Expected) : Prop :=
  offset < t.furthest ∨ t.furthest = offset ∧ e ∈ t.expected

namespace Trail

variable {a b : Trail} {offset : Nat} {e : Expected}

theorem mem_joinExpected {left right : List Expected} : e ∈ joinExpected left right ↔ e ∈ left ∨ e ∈ right := by
  by_cases h : e ∈ left <;> simp [joinExpected, h]

theorem Reaches.append_right (h : a.Reaches offset e) (b : Trail) : (a ++ b).Reaches offset e := by
  simp only [Reaches, append_def, join] at h ⊢
  rcases h with further | ⟨same, member⟩
  · exact .inl (by omega)
  · by_cases beyond : a.furthest < b.furthest
    · exact .inl (by omega)
    · refine .inr ⟨by omega, ?_⟩
      rw [if_neg beyond]
      split
      · exact mem_joinExpected.mpr (.inl member)
      · exact member

theorem Reaches.append_left (h : b.Reaches offset e) (a : Trail) : (a ++ b).Reaches offset e := by
  simp only [Reaches, append_def, join] at h ⊢
  rcases h with further | ⟨same, member⟩
  · exact .inl (by omega)
  · rcases Nat.lt_trichotomy a.furthest b.furthest with less | equal | more
    · exact .inr ⟨by omega, by rw [if_pos less]; exact member⟩
    · refine .inr ⟨by omega, ?_⟩
      rw [if_neg (by omega), if_pos equal]
      exact mem_joinExpected.mpr (.inr member)
    · exact .inl (by omega)

end Trail

/-! ### What may come next in a phrase -/

namespace Phrase

variable {α β : Type} {p q : Phrase α} {starts follow : Char → Prop} {ts us : List Terminal} {e : Expected}

/-- Behind these terminals the phrase may go on with one of the class. -/
def Viable (p : Phrase α) (ts : List Terminal) (e : Expected) : Prop :=
  ∃ t more v, t.kind = e ∧ p (ts ++ t :: more) v

/-- The first terminal begins with one of certain characters. -/
def Opens (p : Phrase α) (starts : Char → Prop) : Prop :=
  ∀ t ts v, p (t :: ts) v → ∃ c more, t.text = c :: more ∧ isBlank c = false ∧ starts c

/-- The phrase stands in front of the cursor, with one of certain characters behind it, or it stands
there as far as a mark. -/
inductive Ahead (p : Phrase α) (follow : Char → Prop) (ts : List Terminal) (d : Cursor) : Prop where
  | whole {v : α} (read : p ts v) (ends : ∀ ch ∈ lead d.rest, follow ch)
  | part {e : Expected} (viable : p.Viable ts e) (mark : lead d.rest = some '#')

theorem cut_at_terminal {t : Terminal} {more first last : List Terminal} (h : ts ++ t :: more = first ++ last) :
    (∃ rest, first = ts ++ t :: rest) ∨ (∃ us, ts = first ++ us ∧ us ++ t :: more = last) := by
  rcases List.append_eq_append_iff.mp h with ⟨extra, rfl, same⟩ | ⟨us, rfl, same⟩
  · cases extra with
    | nil => exact .inr ⟨[], by simp, same⟩
    | cons u extra =>
      obtain ⟨rfl, -⟩ := List.cons.inj same
      exact .inl ⟨extra, rfl⟩
  · exact .inr ⟨us, rfl, same.symm⟩

theorem Viable.of_terminal {kind : Expected} {means : List Char → α → Prop}
    (h : (terminal kind means).Viable ts e) : ts = [] ∧ e = kind := by
  obtain ⟨t, more, v, rfl, text, same, -⟩ := h
  cases ts with
  | nil =>
    obtain ⟨rfl, -⟩ := List.cons.inj same
    exact ⟨rfl, rfl⟩
  | cons u ts => simp at same

theorem not_viable_pure {v : α} : ¬ (pure v : Phrase α).Viable ts e := by
  rintro ⟨t, more, _, -, same, -⟩
  simp at same

theorem Viable.of_bind {next : α → Phrase β} (h : (p >>= next).Viable ts e) :
    p.Viable ts e ∨ ∃ first us a, ts = first ++ us ∧ p first a ∧ (next a).Viable us e := by
  obtain ⟨t, more, v, kind, first, last, a, same, head, tail⟩ := h
  rcases cut_at_terminal same with ⟨rest, rfl⟩ | ⟨us, rfl, rfl⟩
  · exact .inl ⟨t, rest, a, kind, head⟩
  · exact .inr ⟨first, us, a, rfl, head, t, more, v, kind, tail⟩

theorem viable_map_iff {f : α → β} : (f <$> p).Viable ts e ↔ p.Viable ts e := by
  constructor
  · rintro ⟨t, more, v, kind, read⟩
    obtain ⟨a, read, -⟩ := map_iff.mp read
    exact ⟨t, more, a, kind, read⟩
  · rintro ⟨t, more, a, kind, read⟩
    exact ⟨t, more, f a, kind, map_iff.mpr ⟨a, read, rfl⟩⟩

theorem viable_either_iff : (p.either q).Viable ts e ↔ p.Viable ts e ∨ q.Viable ts e := by
  constructor
  · rintro ⟨t, more, v, kind, read | read⟩
    · exact .inl ⟨t, more, v, kind, read⟩
    · exact .inr ⟨t, more, v, kind, read⟩
  · rintro (⟨t, more, v, kind, read⟩ | ⟨t, more, v, kind, read⟩)
    · exact ⟨t, more, v, kind, .inl read⟩
    · exact ⟨t, more, v, kind, .inr read⟩

theorem viable_maybe_iff : p.maybe.Viable ts e ↔ p.Viable ts e := by
  rw [maybe, viable_either_iff, viable_map_iff, or_iff_left not_viable_pure]

theorem Viable.of_many (h : p.many.Viable ts e) :
    p.Viable ts e ∨ ∃ first us a, ts = first ++ us ∧ p first a ∧ p.many.Viable us e := by
  obtain ⟨t, more, v, kind, read⟩ := h
  generalize list : ts ++ t :: more = all at read
  cases read with
  | nil => simp at list
  | @cons first last a as head tail =>
    rcases cut_at_terminal list with ⟨rest, rfl⟩ | ⟨us, rfl, rfl⟩
    · exact .inl ⟨t, rest, a, kind, head⟩
    · exact .inr ⟨first, us, a, rfl, head, t, more, as, kind, tail⟩

namespace Ahead

variable {d : Cursor}

theorem of_either (h : (p.either q).Ahead follow ts d) : p.Ahead follow ts d ∨ q.Ahead follow ts d := by
  cases h with
  | whole read ends =>
    rcases read with read | read
    · exact .inl (.whole read ends)
    · exact .inr (.whole read ends)
  | part viable mark =>
    rcases viable_either_iff.mp viable with viable | viable
    · exact .inl (.part viable mark)
    · exact .inr (.part viable mark)

theorem of_map {f : α → β} (h : (f <$> p).Ahead follow ts d) : p.Ahead follow ts d := by
  cases h with
  | whole read ends =>
    obtain ⟨a, read, -⟩ := map_iff.mp read
    exact .whole read ends
  | part viable mark => exact .part (viable_map_iff.mp viable) mark

theorem of_pure {v : α} (h : (pure v : Phrase α).Ahead follow ts d) : ts = [] ∧ ∀ ch ∈ lead d.rest, follow ch := by
  cases h with
  | whole read ends => exact ⟨read.1, ends⟩
  | part viable _ => exact absurd viable not_viable_pure

theorem of_terminal {kind : Expected} {means : List Char → α → Prop} (h : (terminal kind means).Ahead follow ts d) :
    (∃ text v, ts = [⟨kind, text⟩] ∧ means text v ∧ ∀ ch ∈ lead d.rest, follow ch) ∨ ts = [] ∧ lead d.rest = some '#' := by
  cases h with
  | @whole v read ends =>
    obtain ⟨text, rfl, meant⟩ := read
    exact .inl ⟨text, v, rfl, meant, ends⟩
  | part viable mark => exact .inr ⟨viable.of_terminal.1, mark⟩

theorem of_bind {next : α → Phrase β} {c : Cursor} (h : (p >>= next).Ahead follow ts d) (passes : c.Passes ts d) :
    (∃ e, p.Viable ts e ∧ lead d.rest = some '#') ∨
    ∃ first us a m, p first a ∧ c.Passes first m ∧ m.Passes us d ∧ (next a).Ahead follow us d := by
  cases h with
  | whole read ends =>
    obtain ⟨first, us, a, rfl, head, tail⟩ := read
    obtain ⟨m, left, right⟩ := passes.split
    exact .inr ⟨first, us, a, m, head, left, right, .whole tail ends⟩
  | @part e viable mark =>
    rcases viable.of_bind with viable | ⟨first, us, a, rfl, head, viable⟩
    · exact .inl ⟨e, viable, mark⟩
    · obtain ⟨m, left, right⟩ := passes.split
      exact .inr ⟨first, us, a, m, head, left, right, .part viable mark⟩

end Ahead

/-! ### First characters -/

theorem Opens.terminal {rule : Rule α} {kind : Expected} {means : List Char → α → Prop}
    (takes : rule.Takes kind means starts) : (Phrase.terminal kind means).Opens starts := by
  rintro _ ts v ⟨text, ⟨⟩, meant⟩
  exact takes.begins meant

theorem Opens.weaken {starts' : Char → Prop} (h : p.Opens starts) (sub : ∀ ch, starts ch → starts' ch) :
    p.Opens starts' := by
  intro t ts v read
  obtain ⟨c, more, same, visible, start⟩ := h t ts v read
  exact ⟨c, more, same, visible, sub c start⟩

theorem Opens.pure {v : α} : (pure v : Phrase α).Opens starts := by
  rintro t ts _ ⟨⟨⟩, -⟩

theorem Opens.bind_solid {next : α → Phrase β} (h : p.Opens starts) (solid : p.Solid) :
    (p >>= next).Opens starts := by
  rintro t ts v ⟨first, more, a, same, head, -⟩
  cases first with
  | nil => exact absurd head (solid a)
  | cons u first =>
    obtain ⟨rfl, -⟩ := List.cons.inj same
    exact h t first a head

theorem Opens.bind {next : α → Phrase β} (h : p.Opens starts) (further : ∀ a, (next a).Opens starts) :
    (p >>= next).Opens starts := by
  rintro t ts v ⟨first, more, a, same, head, tail⟩
  cases first with
  | nil =>
    obtain rfl := same
    exact further a t ts v tail
  | cons u first =>
    obtain ⟨rfl, -⟩ := List.cons.inj same
    exact h t first a head

theorem Opens.map {f : α → β} (h : p.Opens starts) : (f <$> p).Opens starts :=
  .bind h fun _ => .pure

theorem Opens.either (left : p.Opens starts) (right : q.Opens starts) : (p.either q).Opens starts := by
  rintro t ts v (read | read)
  · exact left t ts v read
  · exact right t ts v read

theorem Opens.maybe (h : p.Opens starts) : p.maybe.Opens starts := .either h.map .pure

theorem Opens.many (h : p.Opens starts) : p.many.Opens starts := by
  intro t ts v read
  generalize list : t :: ts = all at read
  induction read with
  | nil => cases list
  | @cons first more a as head tail ih =>
    cases first with
    | nil => exact ih list
    | cons u first =>
      obtain ⟨rfl, -⟩ := List.cons.inj list
      exact h t first a head

theorem Opens.list {separator : Phrase Unit} (h : p.Opens starts) (solid : p.Solid) :
    (list separator p).Opens starts := .bind_solid h solid

theorem solid_map {f : α → β} (h : p.Solid) : (f <$> p).Solid := solid_bind_left h

theorem solid_either (left : p.Solid) (right : q.Solid) : (p.either q).Solid := by
  rintro v (read | read)
  · exact left v read
  · exact right v read

theorem solid_list {separator : Phrase Unit} (h : p.Solid) : (list separator p).Solid := solid_bind_left h

theorem Opens.lead (h : p.Opens starts) {c d : Cursor} {v : α} (passes : c.Passes ts d) (read : p (ts ++ us) v) :
    ts = [] ∧ d = c ∨ ∃ ch, lead c.rest = some ch ∧ starts ch := by
  cases ts with
  | nil => exact .inl ⟨rfl, Cursor.passes_nil_iff.mp passes⟩
  | cons t ts =>
    obtain ⟨ch, more, begins, visible, start⟩ := h t (ts ++ us) v read
    exact .inr ⟨ch, passes.lead begins visible, start⟩

namespace Ahead

variable {c d : Cursor}

/-- A first character stands at the cursor, or the mark, or what follows a phrase without terminals. -/
theorem lead_cases (h : p.Ahead follow ts d) (opens : p.Opens starts) (passes : c.Passes ts d) :
    ∀ ch ∈ ChunkSelector.lead c.rest, starts ch ∨ ch = '#' ∨ (∃ v, p [] v) ∧ follow ch := by
  intro ch member
  cases h with
  | @whole v read ends =>
    have first : p (ts ++ []) v := by simpa using read
    rcases opens.lead passes first with ⟨rfl, rfl⟩ | ⟨_, same, start⟩
    · exact .inr (.inr ⟨⟨v, read⟩, ends ch member⟩)
    · rw [same] at member
      obtain rfl := Option.some.inj member
      exact .inl start
  | part viable mark =>
    obtain ⟨t, more, v, -, read⟩ := viable
    rcases opens.lead passes read with ⟨-, rfl⟩ | ⟨_, same, start⟩
    · rw [mark] at member
      exact .inr (.inl (Option.some.inj member).symm)
    · rw [same] at member
      obtain rfl := Option.some.inj member
      exact .inl start

theorem lead (h : p.Ahead follow ts d) (opens : p.Opens starts) (passes : c.Passes ts d) (mark : follow '#') :
    ∀ ch ∈ ChunkSelector.lead c.rest, starts ch ∨ follow ch := by
  intro ch member
  rcases h.lead_cases opens passes ch member with start | rfl | ⟨-, follows⟩
  · exact .inl start
  · exact .inr mark
  · exact .inr follows

theorem lead_of_solid (h : p.Ahead follow ts d) (solid : p.Solid) (opens : p.Opens starts) (passes : c.Passes ts d) :
    ∀ ch ∈ ChunkSelector.lead c.rest, starts ch ∨ ch = '#' := by
  intro ch member
  rcases h.lead_cases opens passes ch member with start | mark | ⟨⟨v, read⟩, -⟩
  · exact .inl start
  · exact .inr mark
  · exact absurd read (solid v)

end Ahead

end Phrase

theorem Cursor.Passes.single {c d : Cursor} {t : Terminal} {ch : Char} {more : List Char} (h : c.Passes [t] d)
    (begins : t.text = ch :: more) (visible : isBlank ch = false) :
    c.skipBlanks.rest = t.text ++ d.rest ∧ t.EndsBefore d.rest := by
  obtain ⟨-, spelled⟩ := h
  rw [Cursor.rest_skipBlanks]
  generalize c.rest = text at spelled ⊢
  generalize d.rest = after at spelled ⊢
  cases spelled with
  | @cons blanks _ rest _ _ blank ends nothing =>
    cases nothing
    refine ⟨?_, ends⟩
    rw [List.append_assoc]
    refine dropWhile_eq_of_stop blank ?_
    rw [begins]
    simpa using visible

namespace Rule

variable {α β : Type} {rule other : Rule α} {phrase p q : Phrase α} {follow before starts : Char → Prop}

def Fails (rule : Rule α) (starts : Char → Prop) : Prop :=
  ∀ c, (∀ ch ∈ lead c.rest, ¬ starts ch) → (rule c).verdict = .noMatch

structure Predicts (rule : Rule α) (phrase : Phrase α) (follow : Char → Prop) : Prop where
  mark : follow '#'
  /-- Every text of the phrase matches, if it goes on with one of the characters. -/
  reads {c d : Cursor} {ts : List Terminal} {v : α} : c.Passes ts d → phrase ts v →
    (∀ ch ∈ lead d.rest, follow ch) → (rule c).verdict = .matched v d
  /-- All that the phrase may go on with was tried at the mark. -/
  attempts {c d : Cursor} {ts : List Terminal} {e : Expected} : c.Passes ts d → phrase.Viable ts e →
    lead d.rest = some '#' → (rule c).trail.Reaches d.skipBlanks.offset e

/-! ### Failing at the first character -/

theorem map_of_noMatch {f : α → β} {c : Cursor} (h : (rule c).verdict = .noMatch) :
    ((f <$> rule : Rule β) c).verdict = .noMatch := by
  change ((rule >>= _) c).verdict = _
  rw [bind_of_noMatch h]

theorem map_of_matched {f : α → β} {c d : Cursor} {v : α} (h : (rule c).verdict = .matched v d) :
    ((f <$> rule : Rule β) c).verdict = .matched (f v) d :=
  bind_matched_iff.mpr ⟨v, d, h, rfl⟩

theorem map_of_invalid {f : α → β} {c d : Cursor} {error : SyntaxError} (h : (rule c).verdict = .invalid error d) :
    ((f <$> rule : Rule β) c).verdict = .invalid error d := by
  change ((rule >>= _) c).verdict = _
  rw [bind_of_invalid h]

theorem separated_of_noMatch {separator : Rule Unit} {c : Cursor} (h : (rule c).verdict = .noMatch) :
    (Rule.separated separator rule c).verdict = .noMatch := by
  rw [separated_eq, bind_of_noMatch h]

theorem Fails.bind {next : α → Rule β} (h : rule.Fails starts) : (rule >>= next).Fails starts := by
  intro c away
  rw [bind_of_noMatch (h c away)]

theorem Fails.map {f : α → β} (h : rule.Fails starts) : (f <$> rule).Fails starts :=
  fun c away => map_of_noMatch (h c away)

theorem Fails.weaken {starts' : Char → Prop} (h : rule.Fails starts) (sub : ∀ ch, starts ch → starts' ch) :
    rule.Fails starts' := fun c away => h c fun ch member start => away ch member (sub ch start)

theorem Fails.orElse (left : rule.Fails starts) (right : other.Fails starts) : (rule <|> other).Fails starts := by
  intro c away
  rw [orElse_of_noMatch (left c away)]
  exact right c away

theorem Fails.separated {separator : Rule Unit} (h : rule.Fails starts) : (Rule.separated separator rule).Fails starts :=
  fun c away => separated_of_noMatch (h c away)

theorem Fails.of_ahead {there : Phrase β} {starts' : Char → Prop} {c d : Cursor} {ts : List Terminal}
    (fails : rule.Fails starts) (ahead : there.Ahead follow ts d) (passes : c.Passes ts d) (solid : there.Solid)
    (opens : there.Opens starts') (apart : ∀ ch, starts' ch ∨ ch = '#' → ¬ starts ch) : (rule c).verdict = .noMatch :=
  fails c fun ch member => apart ch (ahead.lead_of_solid solid opens passes ch member)

theorem optional_of_noMatch {c : Cursor} (h : (rule c).verdict = .noMatch) :
    (rule.optional c).verdict = .matched none c := by
  rw [optional, orElse_of_noMatch (map_of_noMatch h)]
  rfl

theorem Fails.optional_bind {next : Option α → Rule β} (h : rule.Fails starts) (further : (next none).Fails starts) :
    (rule.optional >>= next).Fails starts := by
  intro c away
  rw [bind_of_matched (optional_of_noMatch (h c away))]
  exact further c away

/-! ### Trails of composed rules -/

section reaches

variable {c : Cursor} {offset : Nat} {e : Expected}

theorem bind_reaches {next : α → Rule β} (h : (rule c).trail.Reaches offset e) :
    ((rule >>= next) c).trail.Reaches offset e := by
  cases verdict : (rule c).verdict with
  | matched v d =>
    rw [bind_of_matched verdict]
    exact h.append_right _
  | noMatch =>
    rw [bind_of_noMatch verdict]
    exact h
  | invalid error d =>
    rw [bind_of_invalid verdict]
    exact h

theorem orElse_reaches (h : (rule c).trail.Reaches offset e) : ((rule <|> other) c).trail.Reaches offset e := by
  cases verdict : (rule c).verdict with
  | matched v d =>
    rw [orElse_of_matched verdict]
    exact h
  | noMatch =>
    rw [orElse_of_noMatch verdict]
    exact h.append_right _
  | invalid error d =>
    rw [orElse_of_invalid verdict]
    exact h

theorem many_reaches (consumes : rule.Consumes) (h : (rule c).trail.Reaches offset e) :
    (rule.many c).trail.Reaches offset e := by
  cases verdict : (rule c).verdict with
  | matched v d =>
    rw [many_of_matched consumes verdict]
    exact h.append_right _
  | noMatch =>
    rw [many_of_noMatch verdict]
    exact h
  | invalid error d =>
    rw [many_of_invalid verdict]
    exact h

end reaches

/-! ### Predictions of composed rules -/

namespace Predicts

open Phrase

theorem weaken {follow' : Char → Prop} (h : Predicts rule phrase follow) (mark : follow' '#')
    (sub : ∀ ch, follow' ch → follow ch) : Predicts rule phrase follow' where
  mark := mark
  reads passes read ends := h.reads passes read fun ch member => sub ch (ends ch member)
  attempts := h.attempts

theorem terminal {kind : Expected} {means : List Char → α → Prop} (takes : rule.Takes kind means starts)
    (mark : follow '#') (apart : kind = .token .comparator → ¬ follow '=') :
    Predicts rule (.terminal kind means) follow where
  mark := mark
  reads := by
    rintro c d _ v passes ⟨text, rfl, meant⟩ ends
    obtain ⟨ch, more, begins, visible, -⟩ := takes.begins meant
    obtain ⟨same, full⟩ := passes.single begins visible
    have closed : Terminal.Closed ⟨kind, text⟩ d.rest := by
      refine ⟨full, fun comparator _ equals => apart comparator (ends '=' ?_)⟩
      obtain ⟨rest, same⟩ := List.head?_eq_some_iff.mp equals
      rw [same]
      exact lead_cons_of_visible (by decide) rest
    obtain ⟨e, matched, rest⟩ := takes.reads meant same closed
    have here : e = d := Cursor.ext_of_rest rest ((takes.matched matched).2.1.trans passes.1.symm)
    rw [matched, here]
  attempts := by
    rintro c d ts e passes viable marked
    obtain ⟨rfl, rfl⟩ := viable.of_terminal
    obtain rfl := Cursor.passes_nil_iff.mp passes
    obtain ⟨furthest, expected⟩ := takes.noMatch (takes.noMatch_of_mark marked)
    exact .inr ⟨furthest, by simp [expected]⟩

theorem pure {v : α} (mark : follow '#') : Predicts (Pure.pure v) (Pure.pure v) follow where
  mark := mark
  reads := by
    rintro c d _ _ passes ⟨rfl, rfl⟩ -
    obtain rfl := Cursor.passes_nil_iff.mp passes
    rfl
  attempts _ viable _ := absurd viable not_viable_pure

/-- A sequence, if the first part is found in front of the further one. -/
theorem bind_of_reads {next : α → Rule β} {further : α → Phrase β}
    (reads : ∀ {c m d : Cursor} {first more : List Terminal} {a : α}, c.Passes first m → phrase first a →
      m.Passes more d → (further a).Ahead follow more d → (rule c).verdict = .matched a m)
    (attempts : ∀ {c d : Cursor} {ts : List Terminal} {e : Expected}, c.Passes ts d → phrase.Viable ts e →
      lead d.rest = some '#' → (rule c).trail.Reaches d.skipBlanks.offset e)
    (mark : follow '#') (rest : ∀ a, Predicts (next a) (further a) follow) :
    Predicts (rule >>= next) (phrase >>= further) follow where
  mark := mark
  reads := by
    rintro c d _ v passes ⟨first, more, a, rfl, head, tail⟩ ends
    obtain ⟨m, left, right⟩ := passes.split
    rw [bind_of_matched (reads left head right (.whole tail ends))]
    exact (rest a).reads right tail ends
  attempts := by
    intro c d ts e passes viable marked
    rcases viable.of_bind with viable | ⟨first, us, a, rfl, head, viable⟩
    · exact bind_reaches (attempts passes viable marked)
    · obtain ⟨m, left, right⟩ := passes.split
      rw [bind_of_matched (reads left head right (.part viable marked))]
      exact ((rest a).attempts right viable marked).append_left _

theorem bind {next : α → Rule β} {further : α → Phrase β} (first : Predicts rule phrase before)
    (rest : ∀ a, Predicts (next a) (further a) follow) (opens : ∀ a, (further a).Opens starts)
    (mark : follow '#') (meets : ∀ ch, starts ch ∨ follow ch → before ch) :
    Predicts (rule >>= next) (phrase >>= further) follow := by
  refine bind_of_reads ?_ first.attempts mark rest
  intro c m d ts more a left head right ahead
  exact first.reads left head fun ch member => meets ch (ahead.lead (opens a) right mark ch member)

theorem andThen {next : α → Rule β} {further : α → Phrase β} (first : Predicts rule phrase fun _ => True)
    (rest : ∀ a, Predicts (next a) (further a) follow) (mark : follow '#') :
    Predicts (rule >>= next) (phrase >>= further) follow :=
  bind_of_reads (fun left head _ _ => first.reads left head fun _ _ => trivial) first.attempts mark rest

theorem map (f : α → β) (h : Predicts rule phrase follow) : Predicts (f <$> rule) (f <$> phrase) follow := by
  change Predicts (rule >>= fun a => Pure.pure (f a)) (phrase >>= fun a => Pure.pure (f a)) follow
  exact bind h (fun _ => pure h.mark) (fun _ => @Opens.pure _ follow _) h.mark fun _ either => either.elim id id

theorem orElse (left : Predicts rule p follow) (right : Predicts other q follow)
    (yields : ∀ {c d : Cursor} {ts : List Terminal}, c.Passes ts d → q.Ahead follow ts d → (rule c).verdict = .noMatch) :
    Predicts (rule <|> other) (p.either q) follow where
  mark := left.mark
  reads := by
    rintro c d ts v passes (read | read) ends
    · have matched := left.reads passes read ends
      rw [orElse_of_matched matched, matched]
    · rw [orElse_of_noMatch (yields passes (.whole read ends))]
      exact right.reads passes read ends
  attempts := by
    intro c d ts e passes viable marked
    rcases viable_either_iff.mp viable with viable | viable
    · exact orElse_reaches (left.attempts passes viable marked)
    · rw [orElse_of_noMatch (yields passes (.part viable marked))]
      exact (right.attempts passes viable marked).append_left _

theorem optional (h : Predicts rule phrase follow) (fails : rule.Fails starts) (apart : ∀ ch, follow ch → ¬ starts ch) :
    Predicts rule.optional phrase.maybe follow := by
  refine orElse (h.map some) (pure h.mark) fun passes ahead => ?_
  obtain ⟨rfl, ends⟩ := ahead.of_pure
  obtain rfl := Cursor.passes_nil_iff.mp passes
  exact fails.map _ fun ch member => apart ch (ends ch member)

/-- An optional part is found in front of what may follow it, and passed over if its rule does not match there. -/
theorem optional_reads (h : Predicts rule phrase before) {c m : Cursor} {ts : List Terminal} {v : Option α}
    (passes : c.Passes ts m) (read : phrase.maybe ts v) (ends : ∀ ch ∈ lead m.rest, before ch)
    (away : v = none → (rule m).verdict = .noMatch) : (rule.optional c).verdict = .matched v m := by
  rcases maybe_iff.mp read with ⟨a, head, rfl⟩ | ⟨rfl, rfl⟩
  · have matched := (h.map some).reads passes (map_iff.mpr ⟨a, head, rfl⟩) ends
    rw [Rule.optional, orElse_of_matched matched, matched]
  · obtain rfl := Cursor.passes_nil_iff.mp passes
    exact optional_of_noMatch (away rfl)

theorem optional_attempts (h : Predicts rule phrase before) {c d : Cursor} {ts : List Terminal} {e : Expected}
    (passes : c.Passes ts d) (viable : phrase.maybe.Viable ts e) (marked : lead d.rest = some '#') :
    (rule.optional c).trail.Reaches d.skipBlanks.offset e :=
  orElse_reaches ((h.map some).attempts passes (viable_map_iff.mpr (viable_maybe_iff.mp viable)) marked)

theorem many (h : Predicts rule phrase before) (solid : phrase.Solid) (consumes : rule.Consumes)
    (fails : rule.Fails starts) (opens : phrase.Opens starts) (mark : follow '#')
    (meets : ∀ ch, starts ch ∨ follow ch → before ch) (apart : ∀ ch, follow ch → ¬ starts ch) :
    Predicts rule.many phrase.many follow where
  mark := mark
  reads := by
    intro c d ts v passes read ends
    induction read generalizing c with
    | nil =>
      obtain rfl := Cursor.passes_nil_iff.mp passes
      rw [many_of_noMatch (fails d fun ch member => apart ch (ends ch member))]
    | cons head tail ih =>
      obtain ⟨m, left, right⟩ := passes.split
      have ahead : phrase.many.Ahead follow _ d := .whole tail ends
      have matched := h.reads left head fun ch member => meets ch (ahead.lead opens.many right mark ch member)
      rw [many_of_matched consumes matched]
      exact bind_matched_iff.mpr ⟨_, d, ih right, rfl⟩
  attempts := by
    intro c d ts e passes viable marked
    induction size : ts.length using Nat.strongRecOn generalizing c ts with
    | ind n ih =>
      rcases viable.of_many with viable | ⟨first, us, a, rfl, head, viable⟩
      · exact many_reaches consumes (h.attempts passes viable marked)
      · obtain ⟨m, left, right⟩ := passes.split
        have ahead : phrase.many.Ahead follow us d := .part viable marked
        have matched := h.reads left head fun ch member => meets ch (ahead.lead opens.many right mark ch member)
        -- An item has a terminal, so fewer are left.
        have shorter : us.length < n := by
          cases first with
          | nil => exact absurd head (solid a)
          | cons t first =>
            simp only [List.cons_append, List.length_cons, List.length_append] at size
            omega
        rw [many_of_matched consumes matched]
        exact (bind_reaches (ih _ shorter right viable rfl)).append_left _

theorem separated {text : String} {first : Char} (known : text ∈ Terminal.symbols)
    (begins : text.toList.head? = some first) (h : Predicts rule phrase before) (follows : Follows rule phrase)
    (mark : follow '#') (meets : before first) (sub : ∀ ch, follow ch → before ch) (apart : ¬ follow first) :
    Predicts (Rule.separated (Token.symbol text) rule) (list (symbol text) phrase) follow := by
  have takes := Token.symbol_takes known
  have bar : Predicts (Token.symbol text) (symbol text) fun _ => True := terminal takes trivial (by simp)
  have solid : (do symbol text; phrase : Phrase α).Solid := solid_bind_left solid_terminal
  have opens : (do symbol text; phrase : Phrase α).Opens (Token.symbolStart text) :=
    .bind_solid (.terminal takes) solid_terminal
  have fails : Rule.Fails (do Token.symbol text; rule) (Token.symbolStart text) := Fails.bind fun _ => takes.fails
  have consumes : Rule.Consumes (do Token.symbol text; rule) := by
    have barFollows : Follows (Token.symbol text) (symbol text) := .terminal takes ⟨_, (), _, rfl, rfl⟩
    exact (Follows.bind barFollows fun _ => follows).consumes solid
  have same : ∀ ch, Token.symbolStart text ch → ch = first := fun ch start => Option.some.inj (start.symm.trans begins)
  have either : ∀ ch, Token.symbolStart text ch ∨ follow ch → before ch := by
    rintro ch (start | follows)
    · exact same ch start ▸ meets
    · exact sub ch follows
  have item : Predicts (do Token.symbol text; rule) (do symbol text; phrase) before := bar.andThen (fun _ => h) h.mark
  have items := item.many solid consumes fails opens mark either fun ch follows start => apart (same ch start ▸ follows)
  rw [separated_eq]
  refine h.bind (fun first => ?_) (fun _ => .bind opens.many fun _ => .pure) mark either
  exact items.map _

end Predicts

end Rule

end ChunkSelector
