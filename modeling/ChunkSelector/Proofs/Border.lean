import ChunkSelector.Proofs.Rule

/-!
# Borders in a text

A text that is read up to some place is `Settled` there: every string in it is closed. Where something
follows that stops, that place is therefore a border between two terminals however the text is read
(`Written.cut`), and what stands behind such a border can be exchanged (`Spells.exchange`).
-/

namespace ChunkSelector

open Lexeme

/-- Every quote in the text opens a string or closes it. -/
inductive Settled : List Char → Prop where
  | nil : Settled []
  | plain {c : Char} {text : List Char} (quote : c ≠ '"') (rest : Settled text) : Settled (c :: text)
  | string {body text : List Char} (form : IsBody body) (rest : Settled text) : Settled ('"' :: (body ++ '"' :: text))

namespace Settled

variable {a b : List Char}

theorem append (left : Settled a) (right : Settled b) : Settled (a ++ b) := by
  induction left with
  | nil => exact right
  | plain quote _ ih => exact .plain quote ih
  | string form _ ih =>
    rw [List.cons_append, List.append_assoc]
    exact .string form ih

theorem of_no_quote (h : ∀ c ∈ a, c ≠ '"') : Settled a := by
  induction a with
  | nil => exact .nil
  | cons c a ih => exact .plain (h c (by simp)) (ih fun d member => h d (by simp [member]))

theorem of_quote (h : Settled ('"' :: a)) : ∃ body rest, a = body ++ '"' :: rest ∧ IsBody body ∧ Settled rest := by
  generalize text : '"' :: a = all at h
  cases h with
  | nil => cases text
  | plain quote _ =>
    obtain ⟨rfl, -⟩ := List.cons.inj text
    exact absurd rfl quote
  | string form rest =>
    obtain ⟨-, rfl⟩ := List.cons.inj text
    exact ⟨_, _, rfl, form, rest⟩

theorem of_append (h : Settled (a ++ b)) (left : Settled a) : Settled b := by
  induction left with
  | nil => exact h
  | plain quote _ ih =>
    generalize text : _ ++ b = all at h
    cases h with
    | nil => cases text
    | plain _ rest =>
      obtain ⟨-, rfl⟩ := List.cons.inj text
      exact ih rest
    | string _ _ => exact absurd (List.cons.inj text).1 quote
  | @string body text form _ ih =>
    rw [List.cons_append, List.append_assoc] at h
    obtain ⟨body', rest, same, form', settled⟩ := h.of_quote
    -- The string ends at one place only.
    have first := bodyOf_append form (text ++ b)
    rw [List.cons_append] at same
    rw [same, bodyOf_append form' rest] at first
    obtain ⟨-, rfl⟩ := Prod.mk.inj (Option.some.inj first)
    exact ih settled

end Settled

/-! ### Lexemes -/

namespace Terminal

variable {t : Terminal} {after : List Char}

theorem plain_of_goesOn {c : Char} (h : goesOn c = true) : c ≠ '"' ∧ isBlank c = false := by
  constructor
  · rintro rfl
    exact absurd h (by decide)
  · simp only [goesOn, Char.isAlphanum, Bool.or_eq_true, beq_iff_eq] at h
    rcases h with ((((letter | digit) | rfl) | rfl) | rfl)
    · exact Token.isBlank_of_alpha letter
    · exact Token.isBlank_of_digit digit
    · decide
    · decide
    · decide

theorem symbols_end : ∀ w ∈ symbols, ∀ a ∈ w.toList.getLast?, a.isDigit = false := by
  intro w member
  simp only [symbols, List.mem_cons, List.not_mem_nil, or_false] at member
  rcases member with rfl | rfl | rfl | rfl | rfl | rfl | rfl | rfl | rfl | rfl | rfl <;> simp

/-- A lexeme is a string, or has neither blanks nor quotes. -/
theorem IsLexeme.plain_or_string (h : t.IsLexeme) :
    (∀ c ∈ t.text, c ≠ '"' ∧ isBlank c = false) ∨ ∃ body, IsBody body ∧ t.text = '"' :: body ++ ['"'] := by
  rcases h.shape with string | ⟨first, more, same, visible, quote, -, goes⟩
  · exact .inr string
  · refine .inl fun c member => ?_
    rw [same] at member
    rcases List.mem_cons.mp member with rfl | member
    · exact ⟨quote, visible⟩
    · exact plain_of_goesOn (goes c member)

theorem IsLexeme.settled (h : t.IsLexeme) : Settled t.text := by
  rcases h.plain_or_string with plain | ⟨body, form, same⟩
  · exact .of_no_quote fun c member => (plain c member).1
  · rw [same]
    exact .string form .nil

/-- A lexeme that begins in a settled text does not reach over a text that stops. -/
theorem IsLexeme.cut {inner rest y : List Char} (h : t.IsLexeme) (settled : Settled inner) (some : inner ≠ []) (stop : Stops y)
    (same : t.text ++ rest = inner ++ y) : ∃ q, inner = t.text ++ q ∧ rest = q ++ y := by
  rcases h.shape with ⟨body, form, string⟩ | ⟨first, more, shape, -, -, -, goes⟩
  · rw [string] at same ⊢
    cases inner with
    | nil => exact absurd rfl some
    | cons quote inner =>
      obtain ⟨rfl, longer⟩ : '"' = quote ∧ body ++ ['"'] ++ rest = inner ++ y := List.cons.inj same
      obtain ⟨body', rest', rfl, form', -⟩ := settled.of_quote
      -- The string ends at its first quote, in the settled text.
      have first := bodyOf_append form rest
      rw [List.append_assoc, List.singleton_append, List.append_assoc, List.cons_append] at longer
      rw [longer, bodyOf_append form'] at first
      obtain ⟨rfl, rfl⟩ := Prod.mk.inj (Option.some.inj first)
      exact ⟨rest', by simp, rfl⟩
  · exact within_of_append (by rw [shape]; exact goes) some stop same.symm

theorem noSplit (h : t.IsLexeme) (ends : t.EndsBefore after) : NoSplit t.text after := by
  obtain ⟨kind, text⟩ := t
  have of_last : (∀ a ∈ text.getLast?, a.isDigit = false) → NoSplit text after := by
    intro last a member b _ digit
    rw [last a member] at digit
    cases digit
  cases kind with
  | symbol w =>
    obtain ⟨known, _, ⟨⟩, rfl⟩ := h
    exact of_last (symbols_end w known)
  | token k =>
    cases k with
    | integer => exact fun _ _ b member _ => ends b member
    | float => exact fun _ _ b member _ => ends b member
    | attributeIndex => exact fun _ _ b member _ => ends b member
    | identifier =>
      intro _ _ b member _
      cases digit : b.isDigit with
      | false => rfl
      | true =>
        have stops : b.isAlphanum = false := ends b member
        simp [Char.isAlphanum, digit] at stops
    | comparator =>
      obtain ⟨op, _, ⟨⟩, rfl⟩ := h
      exact of_last (by cases op <;> simp [Comparator.symbol])
    | string =>
      obtain ⟨_, _, ⟨⟩, body, form, rfl, -⟩ := h
      refine of_last ?_
      simp only [List.getLast?_concat, Option.mem_def, Option.some.injEq, forall_eq']
      decide
    | named => exact h.elim
  | endOfInput => exact h.elim

theorem endsBefore_exchange {q x y : List Char} (h : t.EndsBefore (q ++ x)) (stop : Stops y) :
    t.EndsBefore (q ++ y) := by
  cases q with
  | nil => exact (t.closed_of_stops stop).1
  | cons c q => exact h

end Terminal

/-! ### What is spelled in front of a border -/

theorem Blank.settled {blanks : List Char} (blank : Blank blanks) : Settled blanks := by
  refine .of_no_quote fun c member => ?_
  rintro rfl
  exact absurd (blank _ member) (by decide)

theorem Blank.noSplit {blanks after : List Char} (blank : Blank blanks) : NoSplit blanks after := by
  intro a member b _ digit
  have visible := Token.isBlank_of_digit digit
  rw [blank a (List.mem_of_getLast? member)] at visible
  cases visible

theorem noSplit_nil {after : List Char} : NoSplit [] after := by simp [NoSplit]

theorem NoSplit.append {a b after : List Char} (left : NoSplit a (b ++ after)) (right : NoSplit b after) :
    NoSplit (a ++ b) after := by
  cases b with
  | nil => simpa using left
  | cons c b => exact (noSplit_append_left (by simp)).mpr right

namespace Spells

variable {text u r tail x y q : List Char} {ts : List Terminal}

theorem front (h : Spells text ts tail) (lexemes : ∀ t ∈ ts, t.IsLexeme) :
    ∃ p, text = p ++ tail ∧ Settled p ∧ NoSplit p tail := by
  induction h with
  | nil text => exact ⟨[], rfl, .nil, noSplit_nil⟩
  | @cons blanks t rest ts after blank ends _ ih =>
    have lexeme := lexemes t (by simp)
    obtain ⟨p, rfl, settled, border⟩ := ih fun u member => lexemes u (by simp [member])
    refine ⟨blanks ++ t.text ++ p, by simp, (blank.settled.append lexeme.settled).append settled, ?_⟩
    rw [List.append_assoc]
    exact .append blank.noSplit (.append (Terminal.noSplit lexeme ends) border)

/-- Behind the terminals another text may follow, if it stops. -/
theorem exchange (h : Spells text ts (q ++ x)) (stop : Stops y) :
    ∃ p, text = p ++ x ∧ Spells (p ++ y) ts (q ++ y) := by
  generalize behind : q ++ x = tail at h
  induction h with
  | nil text => exact ⟨q, behind.symm, .nil _⟩
  | @cons blanks t rest ts after blank ends _ ih =>
    obtain ⟨p, rfl, more⟩ := ih behind
    refine ⟨blanks ++ t.text ++ p, by simp, ?_⟩
    rw [List.append_assoc]
    exact .cons blank (Terminal.endsBefore_exchange ends stop) more

end Spells

/-- The text is these terminals, with blanks around them. -/
def Written (text : List Char) (ts : List Terminal) : Prop := ∃ tail, Spells text ts tail ∧ Blank tail

theorem stops_blank (text : List Char) : Stops (' ' :: text) := by
  intro c member
  obtain rfl : ' ' = c := by simpa using member
  decide

namespace Written

variable {u r text : List Char} {ts us : List Terminal}

/-- Where a settled text goes on with something that stops, the border stands between two terminals. -/
theorem cut {y : List Char} (h : Written (u ++ y) ts) (lexemes : ∀ t ∈ ts, t.IsLexeme) (settled : Settled u) (stop : Stops y) :
    ∃ front back, ts = front ++ back ∧ Written u front ∧ Written y back := by
  obtain ⟨tail, spelled, blank⟩ := h
  generalize whole : u ++ y = text at spelled
  induction spelled generalizing u with
  | nil text =>
    subst whole
    obtain ⟨before, behind⟩ := blank_append.mp blank
    exact ⟨[], [], rfl, ⟨u, .nil u, before⟩, y, .nil y, behind⟩
  | @cons blanks t rest ts after space ends more ih =>
    have lexeme := lexemes t (by simp)
    rw [List.append_assoc] at whole
    rcases List.append_eq_append_iff.mp whole with ⟨extra, rfl, rfl⟩ | ⟨inner, rfl, same⟩
    · obtain ⟨before, behind⟩ := blank_append.mp space
      have spelled := Spells.cons behind ends more
      rw [List.append_assoc] at spelled
      exact ⟨[], t :: ts, rfl, ⟨u, .nil u, before⟩, after, spelled, blank⟩
    · cases inner with
      | nil =>
        -- The terminal stands at the border.
        have spelled := Spells.cons blank_nil ends more
        rw [List.append_assoc, List.nil_append, same, List.nil_append] at spelled
        rw [List.append_nil]
        exact ⟨[], t :: ts, rfl, ⟨blanks, .nil blanks, space⟩, after, spelled, blank⟩
      | cons ch inner =>
        have settled := settled.of_append space.settled
        obtain ⟨q, inside, rfl⟩ := lexeme.cut settled (List.cons_ne_nil ch inner) stop same
        rw [inside] at settled ⊢
        have others : ∀ u ∈ ts, u.IsLexeme := fun u member => lexemes u (by simp [member])
        obtain ⟨front, back, rfl, ⟨mid, left, middle⟩, right⟩ := ih others (settled.of_append lexeme.settled) blank rfl
        have whole : t.EndsBefore (q ++ []) := Terminal.endsBefore_exchange ends (by simp [Stops])
        rw [List.append_nil] at whole
        have spelled := Spells.cons space whole left
        rw [List.append_assoc] at spelled
        exact ⟨t :: front, back, rfl, ⟨mid, spelled, middle⟩, right⟩

theorem of_blank (h : Written (' ' :: r) ts) (lexemes : ∀ t ∈ ts, t.IsLexeme) : Written r ts := by
  obtain ⟨tail, spelled, blank⟩ := h
  generalize whole : ' ' :: r = text at spelled
  cases spelled with
  | nil =>
    subst whole
    exact ⟨r, .nil r, fun c member => blank c (by simp [member])⟩
  | @cons blanks t rest ts after space ends more =>
    cases blanks with
    | nil =>
      obtain ⟨ch, begins, shape, visible⟩ := (lexemes t (by simp)).begins
      rw [shape] at whole
      obtain ⟨rfl, -⟩ := List.cons.inj whole
      exact absurd visible (by decide)
    | cons ch blanks =>
      obtain ⟨-, rfl⟩ := List.cons.inj whole
      have inside : Blank blanks := fun c member => space c (by simp [member])
      exact ⟨tail, .cons inside ends more, blank⟩

theorem after_blanks {blanks : List Char} (blank : Blank blanks) (h : Written r ts) : Written (blanks ++ r) ts := by
  obtain ⟨tail, spelled, finish⟩ := h
  cases ts with
  | nil =>
    cases spelled
    exact ⟨_, .nil _, blank_append.mpr ⟨blank, finish⟩⟩
  | cons t ts => exact ⟨tail, spelled.after_blanks blank, finish⟩

theorem settled (h : Written text ts) (lexemes : ∀ t ∈ ts, t.IsLexeme) : Settled text := by
  obtain ⟨tail, spelled, blank⟩ := h
  obtain ⟨p, rfl, settled, -⟩ := spelled.front lexemes
  exact settled.append blank.settled

theorem eq_nil_of_blank (h : Written text ts) (lexemes : ∀ t ∈ ts, t.IsLexeme) (blank : Blank text) : ts = [] := by
  obtain ⟨tail, spelled, -⟩ := h
  cases spelled with
  | nil => rfl
  | @cons blanks t rest ts after _ _ _ =>
    obtain ⟨ch, begins, shape, visible⟩ := (lexemes t (by simp)).begins
    rw [blank ch (by simp [shape])] at visible
    cases visible

theorem join (left : Written u ts) (right : Written r us) : Written (u ++ ' ' :: r) (ts ++ us) := by
  obtain ⟨mid, spelled, blank⟩ := left
  rw [← List.append_nil mid] at spelled
  obtain ⟨_, rfl, before⟩ := spelled.exchange (stops_blank r)
  rw [List.append_nil]
  have space : Blank (mid ++ [' ']) := blank_append.mpr ⟨blank, by simp [Blank]; decide⟩
  obtain ⟨tail, behind, finish⟩ := right.after_blanks space
  rw [List.append_assoc] at behind
  exact ⟨tail, before.append behind, finish⟩

end Written

def spaced (ts : List Terminal) : List Char := ts.flatMap fun t => ' ' :: t.text

theorem stops_spaced (ts : List Terminal) : Stops (spaced ts) := by
  cases ts with
  | nil => simp [Stops, spaced]
  | cons t ts => exact stops_blank _

theorem spells_spaced (ts : List Terminal) : Spells (spaced ts) ts [] := by
  induction ts with
  | nil => exact .nil []
  | cons t ts ih =>
    have blank : Blank [' '] := by simp [Blank]; decide
    exact .cons blank (t.closed_of_stops (stops_spaced ts)).1 ih

end ChunkSelector
