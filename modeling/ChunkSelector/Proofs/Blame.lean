import ChunkSelector.Proofs.Relocation
import ChunkSelector.Proofs.Retry

/-!
# Which overlong token is to blame

Where reading stops on an overlong token, the error is about that token unless another one was tried after
it, and that one is the name of a call around it (`Selector.parse_overlong`).
-/

namespace ChunkSelector

open Lexeme

/-! ### What stands in front of an attribute -/

namespace Phrase

variable {α β : Type} {p q : Phrase α}

/-- No attribute begins the phrase. -/
def Shut (p : Phrase α) : Prop := ¬ p.Viable [] (.token .attributeIndex)

/-- An attribute begins the phrase or stands behind a symbol. -/
def Introduces (p : Phrase α) : Prop :=
  ∀ ts, p.Viable ts (.token .attributeIndex) → ∀ t ∈ ts.getLast?, ∃ w, t.kind = .symbol w

theorem shut_terminal {kind : Expected} {means : List Char → α → Prop} (other : kind ≠ .token .attributeIndex) :
    (terminal kind means).Shut := fun viable => other viable.of_terminal.2.symm

theorem shut_pure {v : α} : (pure v : Phrase α).Shut := not_viable_pure

theorem Shut.bind {next : α → Phrase β} (h : p.Shut) (rest : ∀ a, (next a).Shut) : (p >>= next).Shut := by
  intro viable
  rcases viable.of_bind with first | ⟨first, us, a, same, -, behind⟩
  · exact h first
  · obtain ⟨rfl, rfl⟩ := List.append_eq_nil_iff.mp same.symm
    exact rest a behind

theorem Shut.map {f : α → β} (h : p.Shut) : (f <$> p).Shut := h.bind fun _ => shut_pure

theorem Shut.maybe (h : p.Shut) : p.maybe.Shut := fun viable => h (viable_maybe_iff.mp viable)

theorem Shut.bind_solid {next : α → Phrase β} (h : p.Shut) (solid : p.Solid) : (p >>= next).Shut := by
  intro viable
  rcases viable.of_bind with first | ⟨first, us, a, same, head, -⟩
  · exact h first
  · obtain ⟨rfl, rfl⟩ := List.append_eq_nil_iff.mp same.symm
    exact solid a head

theorem shut_behind_symbol {w : String} {next : Unit → Phrase β} : (symbol w >>= next).Shut :=
  (shut_terminal (by simp)).bind_solid solid_terminal

theorem Shut.many (h : p.Shut) (solid : p.Solid) : p.many.Shut := by
  intro viable
  rcases viable.of_many with first | ⟨first, us, a, same, head, -⟩
  · exact h first
  · obtain ⟨rfl, rfl⟩ := List.append_eq_nil_iff.mp same.symm
    exact solid a head

theorem fronts_pure {v : α} : (pure v : Phrase α).Fronts := fun _ viable => absurd viable not_viable_pure

theorem Fronts.introduces (h : p.Fronts) : p.Introduces := by
  intro ts viable t member
  obtain rfl := h ts viable
  cases member

theorem Introduces.map {f : α → β} (h : p.Introduces) : (f <$> p).Introduces :=
  fun ts viable => h ts (viable_map_iff.mp viable)

theorem Introduces.maybe (h : p.Introduces) : p.maybe.Introduces :=
  fun ts viable => h ts (viable_maybe_iff.mp viable)

theorem Introduces.either (left : p.Introduces) (right : q.Introduces) : (p.either q).Introduces :=
  fun ts viable => (viable_either_iff.mp viable).elim (left ts) (right ts)

theorem getLast?_behind {first us : List Terminal} {t : Terminal} (member : t ∈ (first ++ us).getLast?) :
    t ∈ us.getLast? ∨ us = [] ∧ t ∈ first.getLast? := by
  rw [List.getLast?_append] at member
  cases last : us.getLast? with
  | some u => exact .inl (by simpa [last] using member)
  | none => exact .inr ⟨List.getLast?_eq_none_iff.mp last, by simpa [last] using member⟩

theorem Introduces.bind {next : α → Phrase β} (first : p.Introduces) (rest : ∀ a, (next a).Introduces)
    (shut : ∀ a, (next a).Shut) : (p >>= next).Introduces := by
  intro ts viable t member
  rcases viable.of_bind with here | ⟨front, us, a, rfl, -, behind⟩
  · exact first ts here t member
  · rcases getLast?_behind member with last | ⟨rfl, -⟩
    · exact rest a us behind t last
    · exact absurd behind (shut a)

theorem introduces_behind_symbol {w : String} {next : Unit → Phrase β} (rest : ∀ a, (next a).Introduces) :
    (symbol w >>= next).Introduces := by
  intro ts viable t member
  rcases viable.of_bind with here | ⟨_, us, a, rfl, ⟨text, rfl, -⟩, behind⟩
  · obtain ⟨rfl, -⟩ := here.of_terminal
    cases member
  · rcases getLast?_behind member with last | ⟨rfl, last⟩
    · exact rest a us behind t last
    · obtain rfl : ⟨.symbol w, text⟩ = t := by simpa using last
      exact ⟨w, rfl⟩

theorem Introduces.many (h : p.Introduces) (solid : p.Solid) (shut : p.Shut) : p.many.Introduces := by
  intro ts viable t member
  induction size : ts.length using Nat.strongRecOn generalizing ts with
  | ind n ih =>
    rcases viable.of_many with here | ⟨first, us, a, rfl, head, behind⟩
    · exact h ts here t member
    · rcases getLast?_behind member with last | ⟨rfl, -⟩
      · have some : first ≠ [] := by
          rintro rfl
          exact solid a head
        have longer := List.length_pos_iff.mpr some
        rw [List.length_append] at size
        exact ih us.length (by omega) us behind last rfl
      · exact absurd behind (shut.many solid)

theorem Introduces.list {w : String} (h : p.Introduces) : (Phrase.list (symbol w) p).Introduces := by
  have barred : (do symbol w; p : Phrase α).Introduces := introduces_behind_symbol fun _ => h
  have solid : (do symbol w; p : Phrase α).Solid := solid_bind_left solid_terminal
  exact h.bind (fun _ => (barred.many solid shut_behind_symbol).map) fun _ => (shut_behind_symbol.many solid).map

end Phrase

namespace Grammar

open Phrase

theorem condition_introduces : Phrase.condition.Introduces :=
  (comparison_fronts.introduces.map.list.map).list.map

theorem call_shut : Phrase.call.Shut := (shut_terminal (by simp)).bind_solid solid_terminal

theorem call_introduces : Phrase.call.Introduces := by
  have name : Phrase.identifier.Fronts := fronts_terminal
  have closing : ∀ v : Call, (do Phrase.symbol ")"; return v : Phrase Call).Introduces := fun v =>
    introduces_behind_symbol fun _ => fronts_pure.introduces
  refine name.introduces.bind (fun _ => introduces_behind_symbol fun _ => ?_) fun _ => shut_behind_symbol
  exact argument_fronts.introduces.list.maybe.bind (fun _ => closing _) fun _ => shut_behind_symbol

theorem dimension_fronts : Phrase.dimension.Fronts := fronts_of_uses dimension_uses (by decide)

theorem attributeItem_introduces : Phrase.attributeItem.Introduces := by
  have index : Phrase.attributeIndex.Fronts := fronts_terminal
  exact condition_introduces.map.either (call_introduces.map.either (index.introduces.map.either dimension_fronts.introduces.map))

theorem sections_shut (arrays : List Dimension) (attributes : Option (List Attribute)) : (sections arrays attributes).Shut := by
  cases attributes with
  | none => exact shut_pure
  | some attributes => exact shut_behind_symbol.maybe.bind fun _ => shut_behind_symbol.maybe.map

theorem sections_introduces (arrays : List Dimension) (attributes : Option (List Attribute)) :
    (sections arrays attributes).Introduces := by
  cases attributes with
  | none => exact fronts_pure.introduces
  | some attributes =>
    have hyperslices : (do Phrase.symbol "/"; Phrase.alternatives Phrase.hyperslice).Introduces :=
      introduces_behind_symbol fun _ => dimension_fronts.introduces.list.list
    have order : (do Phrase.symbol "/"; Phrase.symbol "order:"; Phrase.call).Introduces :=
      introduces_behind_symbol fun _ => introduces_behind_symbol fun _ => call_introduces
    exact order.maybe.bind (fun _ => hyperslices.maybe.map) fun _ => shut_behind_symbol.maybe.map

theorem hyperchunk_introduces : Phrase.hyperchunk.Introduces := by
  have attributes : (do Phrase.symbol "/"; Phrase.alternatives Phrase.attributeItem).Introduces :=
    introduces_behind_symbol fun _ => attributeItem_introduces.list
  refine dimension_fronts.introduces.list.bind (fun arrays => ?_) fun arrays => ?_
  · exact attributes.maybe.bind (sections_introduces arrays) (sections_shut arrays)
  · exact shut_behind_symbol.maybe.bind (sections_shut arrays)

theorem selector_introduces : Phrase.selector.Introduces := hyperchunk_introduces.list

end Grammar

/-! ### Where reading stops -/

theorem mem_attributeIndex {text : List Char} (form : IsAttributeIndex text) : ∀ c ∈ text, c = 'a' ∨ c.isDigit = true := by
  cases form with
  | mk digits _ =>
    intro c member
    exact (List.mem_cons.mp member).imp id (digits c)

/-- A text that an overlong token begins, and that ends within it or in blanks behind it, shows the letter or a digit last. -/
theorem lastVisible_of_within {text piece blanks rest : List Char} (form : IsAttributeIndex text) (blank : Blank blanks)
    (some : piece ≠ []) (same : text ++ blanks = piece ++ rest) :
    ∃ c, Trail.lastVisible piece = .some c ∧ (c = 'a' ∨ c.isDigit = true) := by
  obtain ⟨digits, rfl⟩ := begins_of_attributeIndex form
  cases piece with
  | nil => exact absurd rfl some
  | cons ch piece =>
    obtain ⟨rfl, -⟩ := List.cons.inj same
    cases shown : Trail.lastVisible ('a' :: piece) with
    | none => exact absurd (Trail.lastVisible_eq_none_iff.mp shown 'a' List.mem_cons_self) (by decide)
    | some c =>
      obtain ⟨member, visible⟩ := Trail.mem_lastVisible shown
      have inside : c ∈ 'a' :: digits ++ blanks := by
        rw [same]
        exact List.mem_append_left rest member
      refine ⟨c, rfl, ?_⟩
      rcases List.mem_append.mp inside with inner | behind
      · exact mem_attributeIndex form c inner
      · rw [blank c behind] at visible
        cases visible

theorem lastVisible_of_symbol : ∀ w ∈ Terminal.symbols,
    ∃ c, Trail.lastVisible w.toList = some c ∧ c.isDigit = false ∧ c ≠ 'a' := by
  have all : ∀ w ∈ Terminal.symbols, (Trail.lastVisible w.toList).any (fun c => !c.isDigit && c != 'a') = true := by decide
  intro w known
  obtain ⟨c, last, edge⟩ := (Option.any_eq_true _ _).mp (all w known)
  exact ⟨c, last, by simpa using edge⟩

theorem Written.lastVisible {u : List Char} {ts : List Terminal} (written : Written u ts) (lexemes : ∀ t ∈ ts, t.IsLexeme)
    (symbol : ∀ t ∈ ts.getLast?, ∃ w, t.kind = .symbol w) :
    ∀ c ∈ Trail.lastVisible u, c.isDigit = false ∧ c ≠ 'a' := by
  obtain ⟨tail, spelled, blank⟩ := written
  cases last : ts.getLast? with
  | none =>
    obtain rfl := List.getLast?_eq_none_iff.mp last
    cases spelled
    rw [Trail.lastVisible_eq_none_iff.mpr blank]
    simp
  | some t =>
    obtain ⟨front, rfl⟩ := List.getLast?_eq_some_iff.mp last
    obtain ⟨mid, left, right⟩ := spelled.split
    obtain ⟨piece, rfl⟩ := left.suffix
    obtain ⟨w, kind⟩ := symbol t last
    have lexeme := lexemes t (by simp)
    cases right with
    | @cons blanks _ _ _ _ _ _ more =>
      cases more
      obtain ⟨_, text⟩ := t
      cases kind
      obtain ⟨known, _, ⟨⟩, rfl⟩ := lexeme
      obtain ⟨c, shown, edge⟩ := lastVisible_of_symbol w known
      rw [Trail.lastVisible_append, Trail.lastVisible_append, Trail.lastVisible_append, Trail.lastVisible_eq_none_iff.mpr blank,
        shown]
      rintro _ ⟨⟩
      exact edge

theorem Cursor.Passes.offset_lt {c d : Cursor} {t : Terminal} {ts : List Terminal} (h : c.Passes (t :: ts) d)
    (lexeme : t.IsLexeme) : c.skipBlanks.offset < d.offset := by
  have whole : c.Passes ([t] ++ ts) d := h
  obtain ⟨e, first, rest⟩ := whole.split
  obtain ⟨ch, more, begins, visible⟩ := lexeme.begins
  obtain ⟨same, -⟩ := first.single begins visible
  have positive : 0 < utf8Length t.text := utf8Length_pos (by simp [begins])
  have total := c.textLength_skipBlanks.trans first.1.symm
  have later := rest.offset_le
  simp only [textLength, same, utf8Length_append] at total
  omega

namespace Overlong

variable {first second token : Overlong} {text u x before after before' after' : List Char} {rule : Rule α} {p : Phrase α}

/-- In front of an overlong token stands neither a digit nor the letter of an attribute. -/
theorem Cuts.lastVisible (cuts : token.Cuts text before after) (declines : p.Declines (.start text) token)
    (follows : Rule.Follows rule p) (introduces : p.Introduces) :
    ∀ c ∈ Trail.lastVisible before, c.isDigit = false ∧ c ≠ 'a' := by
  obtain ⟨m, ⟨ts, passes, viable⟩, stands⟩ := declines
  have lexemes := Rule.next_lexemes follows (.inl viable)
  obtain ⟨u, whole, length, written, -⟩ := passes.written lexemes
  have same : utf8Length before = utf8Length u := by rw [cuts.start, stands.start, length]
  obtain ⟨rfl, -⟩ := append_inj_of_utf8Length (cuts.whole.symm.trans whole) same
  exact written.lastVisible lexemes (introduces ts viable)

theorem Cuts.unique (here : first.Cuts text before after) (there : second.Cuts text before' after')
    (same : first.start = second.start) : first = second := by
  have lengths : utf8Length before = utf8Length before' := by rw [here.start, there.start, same]
  obtain ⟨rfl, rest⟩ := append_inj_of_utf8Length (here.whole.symm.trans there.whole) lengths
  have cut := attributeIndex_eq_some_iff.mpr ⟨rfl, here.form, here.ends⟩
  rw [rest, attributeIndex_eq_some_iff.mpr ⟨rfl, there.form, there.ends⟩] at cut
  obtain ⟨texts, -⟩ := Prod.mk.inj (Option.some.inj cut)
  have stops : first.stop = second.stop := by rw [← here.stop, ← there.stop, texts]
  cases first
  cases second
  simp_all

/-- Where reading stops on a token, no other one begins further on. -/
theorem Cuts.start_le_of_stoppedOn (here : first.Cuts text before after) (there : second.Cuts text before' after')
    (edge : ∀ c ∈ Trail.lastVisible before', c.isDigit = false ∧ c ≠ 'a') (split : text = u ++ x)
    (stopped : Trail.stoppedOn text (utf8Length u) first = true) (within : second.start ≤ utf8Length u) :
    second.start ≤ first.start := by
  refine Nat.le_of_not_lt fun beyond => ?_
  rcases (here.stoppedOn_iff split).mp stopped with rfl | ⟨blanks, rfl, blank⟩
  · rw [here.start] at within
    omega
  · obtain ⟨rest, same, -⟩ := exists_append_of_utf8Length_le (there.whole.symm.trans split) (by rw [there.start]; exact within)
    obtain ⟨piece, rfl, -⟩ := exists_append_of_utf8Length_le (here.whole.symm.trans there.whole) (by
      rw [here.start, there.start]
      omega)
    rw [List.append_assoc, List.append_assoc] at same
    replace same := List.append_cancel_left same
    have some : piece ≠ [] := by
      rintro rfl
      have start := there.start
      rw [List.append_nil, here.start] at start
      omega
    -- The text in front of the second token ends within the first one.
    obtain ⟨c, shown, kind⟩ := lastVisible_of_within here.form blank some same
    obtain ⟨digit, letter⟩ := edge c (by rw [Trail.lastVisible_append, shown]; rfl)
    rcases kind with rfl | isDigit
    · exact letter rfl
    · rw [isDigit] at digit
      cases digit

/-- A token that a call may have as an argument stands behind its name. -/
theorem Calls.start_lt {name : Overlong} (calls : name.Calls text token) : name.start < token.start := by
  obtain ⟨c, -, begins, m, ⟨ts, passes, viable⟩, stands⟩ := calls
  have lexemes := Rule.next_lexemes Grammar.call_follows (.inl viable)
  rw [begins.start, stands.start]
  cases ts with
  | nil => exact absurd viable Grammar.call_shut
  | cons t ts =>
    have bound := passes.offset_lt (lexemes t (by simp))
    have skipped := m.offset_le_skipBlanks
    omega

end Overlong

/-- Of a list that is in order, each member comes before the last one or is the last one. -/
theorem pairwise_getLast {α : Type} {r : α → α → Prop} {list : List α} {a b : α} (pairwise : list.Pairwise r)
    (last : list.getLast? = some b) (member : a ∈ list) : a = b ∨ r a b := by
  obtain ⟨front, rfl⟩ := List.getLast?_eq_some_iff.mp last
  rcases List.mem_append.mp member with before | same
  · exact .inr ((List.pairwise_append.mp pairwise).2.2 a before b (List.mem_singleton_self b))
  · exact .inl (List.mem_singleton.mp same)

namespace Trail

variable {trail : Trail} {text : List Char} {token : Overlong}

theorem diagnose_of_last (last : trail.overlong.getLast? = some token) (stopped : stoppedOn text trail.furthest token = true) :
    trail.diagnose text = .ofNumber token.text token.start := by
  unfold diagnose
  rw [last, Option.filter_some, if_pos stopped]

theorem diagnose_of_away
    (away : ∀ token, trail.overlong.getLast? = some token → stoppedOn text trail.furthest token = false) :
    trail.diagnose text = ⟨trail.furthest,
      kindBetween (splitAtOffset text trail.furthest).1 (splitAtOffset text trail.furthest).2 trail.expected,
      (leadingPiece (splitAtOffset text trail.furthest).2).map .ofList⟩ := by
  have none : trail.overlong.getLast?.filter (stoppedOn text trail.furthest) = none :=
    Option.filter_eq_none_iff.mpr fun token last => by simp [away token last]
  unfold diagnose
  rw [none]

theorem diagnose_invalidNumber {n : Nat} {number : String} {found : Option String}
    (h : trail.diagnose text = ⟨n, .invalidNumber number, found⟩) : ∃ token, trail.overlong.getLast? = some token ∧
      stoppedOn text trail.furthest token = true ∧ number = .ofList token.text ∧ n = token.start := by
  unfold diagnose at h
  split at h
  · rename_i token last
    obtain ⟨last, stopped⟩ := Option.filter_eq_some_iff.mp last
    cases h
    exact ⟨token, last, stopped, rfl, rfl⟩
  · obtain ⟨-, kind, -⟩ := SyntaxError.mk.inj h
    unfold kindBetween at kind
    split at kind
    · split at kind <;> cases kind
    · cases kind

end Trail

theorem begins_of_number {text : List Char} (form : IsInteger text ∨ IsFloat text) :
    ∃ c more, text = c :: more ∧ Token.floatStart c := by
  rcases form with integer | float
  · obtain ⟨c, more, same, -, start, -⟩ := Token.integer_cuts.begins integer
    exact ⟨c, more, same, start.imp id .inl⟩
  · obtain ⟨c, more, same, -, start, -⟩ := Token.float_cuts.begins float
    exact ⟨c, more, same, start⟩

/-- An invalid literal is not about an attribute. -/
theorem Faulty.head_ne {c : Cursor} {error : SyntaxError} (fault : Faulty c error) (number : String)
    (kind : error.kind = .invalidNumber number) : number.toList.head? ≠ some 'a' := by
  cases fault with
  | unterminated => cases kind
  | @number text _ _ form =>
    obtain rfl := SyntaxError.Kind.invalidNumber.inj kind
    rw [String.toList_ofList]
    intro letter
    obtain ⟨_, _, rfl, start⟩ := begins_of_number form
    obtain rfl := Option.some.inj letter
    exact absurd start (by decide)

namespace Selector

open Grammar

/-- What reading a text as a selector leaves behind. -/
def trail (text : String) : Trail := (selector.toEnd (.start text.toList)).trail

/-- A text is refused where its reading stops on an overlong token that was tried, or right after it. -/
structure StopsOn (text : String) (token : Overlong) : Prop where
  failed : (selector.toEnd (.start text.toList)).verdict = .noMatch
  tried : token ∈ (trail text).overlong
  stopped : Trail.stoppedOn text.toList (trail text).furthest token = true

variable {text : String} {token name : Overlong}

theorem overlong_cuts (tried : token ∈ (trail text).overlong) : ∃ before after, token.Cuts text.toList before after ∧
    ∀ c ∈ Trail.lastVisible before, c.isDigit = false ∧ c ≠ 'a' := by
  have declines := (Rule.toEnd_recalls selector_follows _ token tried).2
  obtain ⟨before, after, cuts⟩ := Overlong.exists_cuts declines
  exact ⟨before, after, cuts, cuts.lastVisible declines selector_follows selector_introduces⟩

theorem StopsOn.start_le (stops : StopsOn text token) {other : Overlong} (tried : other ∈ (trail text).overlong) :
    other.start ≤ token.start := by
  obtain ⟨u, x, split, length, -⟩ := Rule.toEnd_border selector_follows stops.failed
  obtain ⟨before, after, here, -⟩ := overlong_cuts stops.tried
  obtain ⟨before', after', there, edge⟩ := overlong_cuts tried
  have within : other.start ≤ (trail text).furthest := (Rule.toEnd_recalls selector_follows _ other tried).1
  refine here.start_le_of_stoppedOn there edge split ?_ ?_
  · rw [length]
    exact stops.stopped
  · rw [length]
    exact within

theorem StopsOn.eq_or_calls (stops : StopsOn text token) (last : (trail text).overlong.getLast? = some name) :
    token = name ∨ name.Calls text.toList token := by
  have inside : (Cursor.start text.toList).In text.toList := ⟨[], rfl, rfl⟩
  have orderly := selector_orderly text.toList _ inside
  rw [← Rule.toEnd_overlong] at orderly
  rcases pairwise_getLast orderly last stops.tried with same | before | calls
  · exact .inl same
  · obtain ⟨_, _, here, -⟩ := overlong_cuts stops.tried
    obtain ⟨_, _, there, -⟩ := overlong_cuts (List.mem_of_getLast? last)
    exact .inl (here.unique there (Nat.le_antisymm before (stops.start_le (List.mem_of_getLast? last))))
  · exact .inr calls

/-- Exactly if the token tried last is not the name of a call around it, the error is about the token that reading
stops on. No other error is about an attribute. -/
theorem parse_overlong (text : String) :
    (∀ token, StopsOn text token → (parse text = .error (.ofNumber token.text token.start) ↔
      ∀ name ∈ (trail text).overlong.getLast?, ¬ name.Calls text.toList token)) ∧
    ∀ offset number found, parse text = .error ⟨offset, .invalidNumber number, found⟩ → number.toList.head? = some 'a' →
      ∃ token, StopsOn text token ∧ number = .ofList token.text ∧ offset = token.start := by
  refine ⟨fun token stops => ⟨fun refused name last calls => ?_, fun free => ?_⟩, fun offset number found refused letter => ?_⟩
  · rcases parse_error_iff.mp refused with ⟨-, diagnosed⟩ | ⟨d, invalid⟩
    · obtain ⟨blamed, tried, -, -, same⟩ := Trail.diagnose_invalidNumber diagnosed
      obtain rfl := Option.some.inj (tried.symm.trans last)
      have behind := calls.start_lt
      omega
    · cases stops.failed.symm.trans invalid
  · cases last : (trail text).overlong.getLast? with
    | none =>
      have tried := stops.tried
      rw [List.getLast?_eq_none_iff.mp last] at tried
      cases tried
    | some name =>
      rcases stops.eq_or_calls last with rfl | calls
      · exact parse_error_iff.mpr (.inl ⟨stops.failed, Trail.diagnose_of_last last stops.stopped⟩)
      · exact absurd calls (free name last)
  · rcases parse_error_iff.mp refused with ⟨failed, diagnosed⟩ | ⟨d, invalid⟩
    · obtain ⟨token, last, stopped, same, offset⟩ := Trail.diagnose_invalidNumber diagnosed
      exact ⟨token, ⟨failed, List.mem_of_getLast? last, stopped⟩, same, offset⟩
    · obtain ⟨_, _, -, fault⟩ := selector_follows.faulty (Rule.toEnd_invalid invalid)
      exact absurd letter (fault.head_ne number rfl)

/-- Reading stops on the argument, and the name is the token tried last. -/
theorem parse_overlong_of_call : ∃ token, StopsOn "0/a99999999999999999999(a99999999999999999999)" token ∧
    parse "0/a99999999999999999999(a99999999999999999999)" ≠ .error (.ofNumber token.text token.start) := by
  have tried : (trail "0/a99999999999999999999(a99999999999999999999)").overlong =
      [⟨"a99999999999999999999".toList, 2, 23⟩, ⟨"a99999999999999999999".toList, 24, 45⟩,
        ⟨"a99999999999999999999".toList, 2, 23⟩] := by rfl
  have refused : parse "0/a99999999999999999999(a99999999999999999999)" = .error ⟨24,
      .expected [.token .attributeIndex, .token .string, .token .float, .token .integer, .symbol ")"],
      some "a99999999999999999999"⟩ := by rfl
  refine ⟨⟨"a99999999999999999999".toList, 24, 45⟩, ⟨by rfl, ?_, by rfl⟩, ?_⟩
  · rw [tried]
    simp
  · rw [refused]
    simp [SyntaxError.ofNumber]

theorem parse_overlong_of_attribute : parse "0/a99999999999999999999" = .error (.ofNumber "a99999999999999999999".toList 2) := by
  have tried : (trail "0/a99999999999999999999").overlong = [⟨"a99999999999999999999".toList, 2, 23⟩, ⟨"a99999999999999999999".toList, 2, 23⟩] := by
    rfl
  have stops : StopsOn "0/a99999999999999999999" ⟨"a99999999999999999999".toList, 2, 23⟩ := by
    refine ⟨by rfl, ?_, by rfl⟩
    rw [tried]
    exact List.mem_cons_self
  refine ((parse_overlong "0/a99999999999999999999").1 _ stops).mpr fun name last calls => ?_
  rw [tried] at last
  obtain rfl := Option.some.inj last
  exact absurd calls.start_lt (by decide)

end Selector

end ChunkSelector
