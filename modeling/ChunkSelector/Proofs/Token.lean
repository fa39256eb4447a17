import ChunkSelector.Proofs.Phrase
import ChunkSelector.Proofs.Shift

/-!
# Rules for one token

`Rule.Takes` is all that the other modules need to know of a rule for one token: what it matches,
where it fails, what it remembers then, and that it does not look past the end of its lexeme. Every rule of `Token` but the
one for the end of the input has it.
-/

namespace ChunkSelector

open Lexeme

/-! ### The end of a lexeme -/

/-- A character that may follow the first one of a lexeme without quotes. -/
def goesOn (c : Char) : Bool := c.isAlphanum || c == '.' || c == '=' || c == ':'

/-- A character that may be the first one of a token without quotes. -/
def opensToken (c : Char) : Bool := c.isAlphanum || ['-', '.', '=', '!', '<', '>'].contains c

/-- Nothing here goes on with a lexeme. -/
def Stops (after : List Char) : Prop := ∀ c ∈ after.head?, goesOn c = false

/-- The border between two texts does not cut through digits. -/
def NoSplit (before after : List Char) : Prop :=
  ∀ a ∈ before.getLast?, ∀ b ∈ after.head?, a.isDigit = true → b.isDigit = false

/-- The token has its full length, a comparator too. -/
def Terminal.Closed (t : Terminal) (after : List Char) : Prop :=
  t.EndsBefore after ∧ (t.kind = .token .comparator → t.text.length = 1 → after.head? ≠ some '=')

theorem isAlphanum_goesOn {c : Char} (h : c.isAlphanum = true) : goesOn c = true := by
  simp [goesOn, h]

theorem isDigit_goesOn {c : Char} (h : c.isDigit = true) : goesOn c = true :=
  isAlphanum_goesOn (by simp [Char.isAlphanum, h])

theorem not_alphanum_of_stop {c : Char} (h : goesOn c = false) : c.isAlphanum = false := by
  cases alphanum : c.isAlphanum
  · rfl
  · rw [isAlphanum_goesOn alphanum] at h
    cases h

theorem not_digit_of_stop {c : Char} (h : goesOn c = false) : c.isDigit = false := by
  cases digit : c.isDigit
  · rfl
  · rw [isDigit_goesOn digit] at h
    cases h

theorem Terminal.closed_of_stops (t : Terminal) {after : List Char} (h : Stops after) : t.Closed after := by
  have noDigit : NoDigit after := fun c member => not_digit_of_stop (h c member)
  refine ⟨?_, ?_⟩
  · unfold EndsBefore
    split
    · exact noDigit
    · exact noDigit
    · exact noDigit
    · exact fun c member => not_alphanum_of_stop (h c member)
    · trivial
  · intro _ _ equals
    have := h '=' equals
    revert this
    decide

theorem Terminal.closed_exchange {t : Terminal} {q x y : List Char} (h : t.Closed (q ++ x)) (stop : Stops y) :
    t.Closed (q ++ y) := by
  cases q with
  | nil => exact t.closed_of_stops stop
  | cons c q => exact h

theorem noSplit_append_left {a b x : List Char} (present : b ≠ []) : NoSplit (a ++ b) x ↔ NoSplit b x := by
  cases h : b.getLast? with
  | none => exact absurd (List.getLast?_eq_none_iff.mp h) present
  | some c => simp [NoSplit, List.getLast?_append, h]

/-- A lexeme that reaches no further than the text that stops is part of the text before it. -/
theorem within_of_append {text after p y : List Char} (rest : ∀ c ∈ text.tail, goesOn c = true) (present : p ≠ [])
    (stop : Stops y) (h : p ++ y = text ++ after) : ∃ q, p = text ++ q ∧ after = q ++ y := by
  rcases List.append_eq_append_iff.mp h with ⟨extra, rfl, rfl⟩ | ⟨q, rfl, rfl⟩
  · cases extra with
    | nil => exact ⟨[], by simp, by simp⟩
    | cons c extra =>
      have goes : goesOn c = true := by
        apply rest
        cases p with
        | nil => exact absurd rfl present
        | cons d p => simp
      have stops := stop c (by simp)
      rw [goes] at stops
      cases stops
  · exact ⟨q, rfl, rfl⟩

/-! ### What a rule for one token does -/

/-- A literal at the cursor that no continuation makes valid. -/
inductive Faulty (c : Cursor) : SyntaxError → Prop where
  | number {text after : List Char} (same : c.rest = text ++ after) (form : IsInteger text ∨ IsFloat text) :
      Faulty c (.ofNumber text c.offset)
  | unterminated {rest : List Char} (same : c.rest = '"' :: rest) : Faulty c (.ofUnterminated c.offset)

theorem Faulty.offset {c : Cursor} {error : SyntaxError} (h : Faulty c error) : error.offset = c.offset := by
  cases h <;> rfl

/-- The token is written at the cursor, at full length, and its index does not fit. -/
structure Overlong.StandsAt (token : Overlong) (c : Cursor) : Prop where
  start : token.start = c.offset
  stop : token.stop = c.offset + utf8Length token.text
  written : ∃ after, c.rest = token.text ++ after ∧ IsAttributeIndex token.text ∧ NoDigit after
  exceeds : UInt64.size ≤ Token.digitsValue (token.text.drop 1)

/-- The rule takes a terminal of one class, which begins with one of certain characters. -/
structure Rule.Takes (rule : Rule α) (kind : Expected) (means : List Char → α → Prop) (starts : Char → Prop) :
    Prop where
  lexeme {text : List Char} {v : α} : means text v → Terminal.IsLexeme ⟨kind, text⟩
  begins {text : List Char} {v : α} : means text v → ∃ c more, text = c :: more ∧ isBlank c = false ∧ starts c
  /-- No token begins with this character. -/
  mark : ¬ starts '#'
  matched {c d : Cursor} {v : α} : (rule c).verdict = .matched v d →
    (rule c).trail = .empty ∧ d.textLength = c.textLength ∧
    ∃ text, c.skipBlanks.rest = text ++ d.rest ∧ means text v ∧ Terminal.Closed ⟨kind, text⟩ d.rest
  noMatch {c : Cursor} : (rule c).verdict = .noMatch →
    (rule c).trail.furthest = c.skipBlanks.offset ∧ (rule c).trail.expected = [kind]
  invalid {c d : Cursor} {error : SyntaxError} : (rule c).verdict = .invalid error d →
    (rule c).trail = .empty ∧ Faulty c.skipBlanks error
  overlong {c : Cursor} {token : Overlong} : token ∈ (rule c).trail.overlong →
    (rule c).verdict = .noMatch ∧ kind = .token .attributeIndex ∧ token.StandsAt c.skipBlanks
  shifted {k : Nat} {c d : Cursor} : c.Shifted k d → (rule c).Shifted k (rule d)
  reads {c : Cursor} {text after : List Char} {v : α} : means text v → c.skipBlanks.rest = text ++ after →
    Terminal.Closed ⟨kind, text⟩ after → ∃ d, (rule c).verdict = .matched v d ∧ d.rest = after
  fails {c : Cursor} : (∀ ch ∈ lead c.rest, ¬ starts ch) → (rule c).verdict = .noMatch
  /-- Without a match, there is none either when the text stops earlier. -/
  persists {c e : Cursor} {p x y : List Char} : c.skipBlanks.rest = p ++ x → e.skipBlanks.rest = p ++ y →
    p ≠ [] → NoSplit p x → Stops y → (rule c).verdict = .noMatch → (rule e).verdict = .noMatch

theorem Rule.Takes.noMatch_of_mark {rule : Rule α} {kind : Expected} {means : List Char → α → Prop}
    {starts : Char → Prop} {c : Cursor} (takes : rule.Takes kind means starts) (h : lead c.rest = some '#') :
    (rule c).verdict = .noMatch := by
  apply takes.fails
  intro ch member start
  rw [h] at member
  obtain rfl := Option.some.inj member
  exact takes.mark start

namespace Token

theorem shifted_matched {k : Nat} (v : α) {c d : Cursor} (h : c.Shifted k d) :
    (matched v c).Shifted k (matched v d) := .matched rfl rfl h .empty

theorem shifted_outOfRange {k : Nat} {c d : Cursor} (h : c.Shifted k d) (text : List Char) (next next' : Cursor) :
    (outOfRange text c.skipBlanks next : Step α).Shifted k (outOfRange text d.skipBlanks next') := by
  have there : (outOfRange text d.skipBlanks next' : Step α).verdict =
      .invalid ((SyntaxError.ofNumber text c.skipBlanks.offset).shift k) next' := by
    rw [outOfRange, h.offset]
    rfl
  exact .invalid rfl there .empty

/-! ### Rules that cut off a lexeme -/

section lexeme

variable {α : Type} {kind : Expected} {cut : List Char → Option (List Char × List Char)}
  {meaning : List Char → Cursor → Cursor → Step α} {c : Cursor}

theorem lexeme_of_cut {text after : List Char} (h : cut c.skipBlanks.rest = some (text, after)) :
    lexeme kind cut meaning c = meaning text c.skipBlanks (c.skipBlanks.past text after) := by
  simp only [lexeme, h]

theorem lexeme_of_none (h : cut c.skipBlanks.rest = none) :
    lexeme kind cut meaning c = ⟨.noMatch, .attempt c.skipBlanks.offset kind⟩ := by
  simp only [lexeme, h]

theorem lexeme_shifted {k : Nat} {d : Cursor} (h : c.Shifted k d)
    (meant : ∀ text after, (meaning text c.skipBlanks (c.skipBlanks.past text after)).Shifted k
      (meaning text d.skipBlanks (d.skipBlanks.past text after))) :
    (lexeme kind cut meaning c).Shifted k (lexeme kind cut meaning d) := by
  cases read : cut c.skipBlanks.rest with
  | none =>
    rw [lexeme_of_none read, lexeme_of_none (by rw [h.rest, read])]
    exact .noMatch rfl rfl (.attempt h kind)
  | some pair =>
    rw [lexeme_of_cut read, lexeme_of_cut (by rw [h.rest, read])]
    exact meant pair.1 pair.2

/-- The cut takes the lexemes of a form at full length. -/
structure Cuts (kind : Expected) (cut : List Char → Option (List Char × List Char)) (form : List Char → Prop)
    (starts : Char → Prop) : Prop where
  exact {text lexeme after : List Char} : cut text = some (lexeme, after) ↔
    text = lexeme ++ after ∧ form lexeme ∧ Terminal.EndsBefore ⟨kind, lexeme⟩ after
  begins {lexeme : List Char} : form lexeme →
    ∃ c more, lexeme = c :: more ∧ isBlank c = false ∧ starts c ∧ ∀ d ∈ more, goesOn d = true
  mark : ¬ starts '#'
  simple : kind ≠ .token .comparator

/-- What a lexeme of the form means: a value, none, or an error. -/
structure Judges (kind : Expected) (form : List Char → Prop) (means : List Char → α → Prop)
    (meaning : List Char → Cursor → Cursor → Step α) (declines : List Char → Prop) : Prop where
  lexeme {text : List Char} {v : α} : means text v → Terminal.IsLexeme ⟨kind, text⟩
  formed {text : List Char} {v : α} : means text v → form text
  matched {text : List Char} {start next d : Cursor} {v : α} : form text →
    (meaning text start next).verdict = .matched v d → meaning text start next = matched v next ∧ d = next ∧ means text v
  noMatch {text : List Char} {start next : Cursor} : (meaning text start next).verdict = .noMatch →
    declines text ∧ (meaning text start next).trail.furthest = start.offset ∧
      (meaning text start next).trail.expected = [kind]
  invalid {text : List Char} {start next d : Cursor} {error : SyntaxError} : form text →
    (meaning text start next).verdict = .invalid error d →
      (meaning text start next).trail = .empty ∧ (IsInteger text ∨ IsFloat text) ∧ error = .ofNumber text start.offset
  overlong {text : List Char} {start next : Cursor} {token : Overlong} : form text →
    token ∈ (meaning text start next).trail.overlong → (meaning text start next).verdict = .noMatch ∧
      kind = .token .attributeIndex ∧ IsAttributeIndex text ∧ UInt64.size ≤ digitsValue (text.drop 1) ∧
      token = ⟨text, start.offset, next.offset⟩
  shifted {k : Nat} {text after : List Char} {c d : Cursor} : c.Shifted k d →
    (meaning text c.skipBlanks (c.skipBlanks.past text after)).Shifted k
      (meaning text d.skipBlanks (d.skipBlanks.past text after))
  reads {text : List Char} {start next : Cursor} {v : α} : means text v →
    (meaning text start next).verdict = .matched v next
  declined {text : List Char} {start next : Cursor} : form text → declines text →
    (meaning text start next).verdict = .noMatch

variable {form : List Char → Prop} {means : List Char → α → Prop} {starts : Char → Prop}
  {declines : List Char → Prop}

theorem cut_none_of_lead (cuts : Cuts kind cut form starts) (h : ∀ ch ∈ lead c.rest, ¬ starts ch) :
    cut c.skipBlanks.rest = none := by
  cases read : cut c.skipBlanks.rest with
  | none => rfl
  | some pair =>
    obtain ⟨same, formed, -⟩ := cuts.exact.mp read
    obtain ⟨d, more, begins, -, starts, -⟩ := cuts.begins formed
    refine absurd starts (h d ?_)
    rw [Cursor.rest_skipBlanks] at same
    simp [lead, same, begins]

/-- Such a rule takes one terminal, if a lexeme that another text cuts short does not become one
that is declined. -/
theorem takes_lexeme (form declines : List Char → Prop) (cuts : Cuts kind cut form starts)
    (judges : Judges kind form means meaning declines)
    (longer : ∀ {text x : List Char}, form text → NoSplit text x →
      ∃ long after, cut (text ++ x) = some (long, after) ∧ (declines long → declines text)) :
    (lexeme kind cut meaning).Takes kind means starts where
  lexeme := judges.lexeme
  begins means := by
    obtain ⟨c, more, same, visible, starts, -⟩ := cuts.begins (judges.formed means)
    exact ⟨c, more, same, visible, starts⟩
  mark := cuts.mark
  matched {c d v} h := by
    cases read : cut c.skipBlanks.rest with
    | none => rw [lexeme_of_none read] at h; cases h
    | some pair =>
      rw [lexeme_of_cut read] at h ⊢
      obtain ⟨same, formed, ends⟩ := cuts.exact.mp read
      obtain ⟨step, rfl, means⟩ := judges.matched formed h
      refine ⟨by rw [step]; rfl, ?_, _, same, means, ends, fun comparator => absurd comparator cuts.simple⟩
      rw [Cursor.textLength_past same, Cursor.textLength_skipBlanks]
  noMatch {c} h := by
    cases read : cut c.skipBlanks.rest with
    | none => rw [lexeme_of_none read]; exact ⟨rfl, rfl⟩
    | some pair =>
      rw [lexeme_of_cut read] at h ⊢
      exact (judges.noMatch h).2
  invalid {c d error} h := by
    cases read : cut c.skipBlanks.rest with
    | none => rw [lexeme_of_none read] at h; cases h
    | some pair =>
      rw [lexeme_of_cut read] at h ⊢
      obtain ⟨same, formed, -⟩ := cuts.exact.mp read
      obtain ⟨trail, form, rfl⟩ := judges.invalid formed h
      exact ⟨trail, .number same form⟩
  overlong {c token} member := by
    cases read : cut c.skipBlanks.rest with
    | none => rw [lexeme_of_none read] at member; cases member
    | some pair =>
      rw [lexeme_of_cut read] at member ⊢
      obtain ⟨same, formed, ends⟩ := cuts.exact.mp read
      obtain ⟨failed, rfl, form, exceeds, rfl⟩ := judges.overlong formed member
      exact ⟨failed, rfl, rfl, rfl, ⟨_, same, form, ends⟩, exceeds⟩
  shifted h := lexeme_shifted h fun _ _ => judges.shifted h
  reads {c text after v} means same closed := by
    have read := cuts.exact.mpr ⟨same, judges.formed means, closed.1⟩
    rw [lexeme_of_cut read]
    exact ⟨_, judges.reads means, rfl⟩
  fails h := by rw [lexeme_of_none (cut_none_of_lead cuts h)]
  persists {c e p x y} left right present border stop h := by
    cases read : cut e.skipBlanks.rest with
    | none => rw [lexeme_of_none read]
    | some pair =>
      obtain ⟨same, formed, ends⟩ := cuts.exact.mp read
      obtain ⟨d, more, begins, -, -, goes⟩ := cuts.begins formed
      obtain ⟨q, rfl, rest⟩ := within_of_append (by rw [begins]; exact goes) present stop (right.symm.trans same)
      -- The other text has a lexeme at the same place, and that one is declined.
      rw [lexeme_of_cut read]
      apply judges.declined formed
      cases q with
      | nil =>
        rw [List.append_nil] at left border
        obtain ⟨long, after, read', less⟩ := longer formed border
        rw [← left] at read'
        rw [lexeme_of_cut read'] at h
        exact less (judges.noMatch h).1
      | cons ch q =>
        have read' : cut c.skipBlanks.rest = some (pair.1, ch :: q ++ x) := by
          refine cuts.exact.mpr ⟨by rw [left, List.append_assoc], formed, ?_⟩
          have kept : Terminal.EndsBefore ⟨kind, pair.1⟩ (ch :: q ++ y) := by rw [← rest]; exact ends
          exact kept
        rw [lexeme_of_cut read'] at h
        exact (judges.noMatch h).1

/-- Every lexeme of the form means its value. -/
theorem judges_all (value : List Char → α) (meant : ∀ {text v}, means text v ↔ form text ∧ v = value text)
    (lexemes : ∀ {text v}, means text v → Terminal.IsLexeme ⟨kind, text⟩) :
    Judges kind form means (fun text _ next => matched (value text) next) fun _ => False where
  lexeme := lexemes
  formed means := (meant.mp means).1
  matched formed h := by
    cases h
    exact ⟨rfl, rfl, meant.mpr ⟨formed, rfl⟩⟩
  noMatch h := by cases h
  invalid _ h := by cases h
  overlong _ member := by cases member
  shifted h := shifted_matched _ (h.past _ _)
  reads means := by
    obtain ⟨-, rfl⟩ := meant.mp means
    rfl
  declined _ never := never.elim

/-- A number of the form means its value if that fits, and is invalid otherwise. -/
theorem judges_ranged (fits : List Char → Prop) [DecidablePred fits] (value : List Char → α)
    (meant : ∀ {text v}, means text v ↔ form text ∧ fits text ∧ v = value text)
    (lexemes : ∀ {text v}, means text v → Terminal.IsLexeme ⟨kind, text⟩)
    (number : ∀ {text}, form text → IsInteger text ∨ IsFloat text) :
    Judges kind form means
      (fun text start next => if fits text then matched (value text) next else outOfRange text start next) fun _ => False where
  lexeme := lexemes
  formed means := (meant.mp means).1
  matched {text start next d v} formed h := by
    by_cases inside : fits text
    · rw [if_pos inside] at h ⊢
      cases h
      exact ⟨rfl, rfl, meant.mpr ⟨formed, inside, rfl⟩⟩
    · rw [if_neg inside] at h
      cases h
  noMatch {text start next} h := by
    split at h <;> cases h
  invalid {text start next d error} formed h := by
    by_cases inside : fits text
    · rw [if_pos inside] at h
      cases h
    · rw [if_neg inside] at h ⊢
      cases h
      exact ⟨rfl, number formed, rfl⟩
  overlong {text start next token} _ member := by
    split at member <;> cases member
  shifted {k text after c d} h := by
    by_cases inside : fits text
    · rw [if_pos inside, if_pos inside]
      exact shifted_matched _ (h.past _ _)
    · rw [if_neg inside, if_neg inside]
      exact shifted_outOfRange h text _ _
  reads means := by
    obtain ⟨-, inside, rfl⟩ := meant.mp means
    rw [if_pos inside]
    rfl
  declined _ never := never.elim

end lexeme

/-! ### Each token -/

theorem alpha_bounds {c : Char} (h : c.isAlpha = true) :
    65 ≤ c.toNat ∧ c.toNat ≤ 90 ∨ 97 ≤ c.toNat ∧ c.toNat ≤ 122 := by
  rcases Bool.or_eq_true_iff.mp h with upper | lower
  · have bounds : 'A'.val ≤ c.val ∧ c.val ≤ 'Z'.val := of_decide_eq_true upper
    simp only [UInt32.le_iff_toNat_le] at bounds
    exact .inl bounds
  · have bounds : (decide ('a'.val ≤ c.val) && decide (c.val ≤ 'z'.val)) = true := lower
    simp only [Bool.and_eq_true, decide_eq_true_eq, UInt32.le_iff_toNat_le] at bounds
    exact .inr bounds

theorem isBlank_of_bounds {c : Char} (h : 48 ≤ c.toNat ∧ c.toNat ≤ 122) : isBlank c = false := by
  simp only [isBlank, inRanges, blankRanges, List.any_cons, List.any_nil, Bool.or_false, Bool.or_eq_false_iff,
    Bool.and_eq_false_iff, decide_eq_false_iff_not]
  omega

theorem isBlank_of_digit {c : Char} (h : c.isDigit = true) : isBlank c = false := by
  have bounds : 48 ≤ c.toNat ∧ c.toNat ≤ 57 := Char.isDigit_iff_toNat.mp h
  exact isBlank_of_bounds (by omega)

theorem isBlank_of_alpha {c : Char} (h : c.isAlpha = true) : isBlank c = false := by
  have bounds := alpha_bounds h
  exact isBlank_of_bounds (by omega)

theorem goesOn_of_digits {ds : List Char} (h : Digits ds) : ∀ d ∈ ds, goesOn d = true :=
  fun d member => isDigit_goesOn (h d member)

def symbolStart (text : String) (c : Char) : Prop := text.toList.head? = some c

theorem symbol_shape : ∀ text ∈ Terminal.symbols, ∃ c more, text.toList = c :: more ∧ isBlank c = false ∧
    c ≠ '#' ∧ ∀ d ∈ more, goesOn d = true := by
  intro text member
  simp only [Terminal.symbols, List.mem_cons, List.not_mem_nil, or_false] at member
  rcases member with rfl | rfl | rfl | rfl | rfl | rfl | rfl | rfl | rfl | rfl | rfl <;>
    exact ⟨_, _, rfl, by decide, by decide, by decide⟩

theorem symbol_cuts {text : String} (known : text ∈ Terminal.symbols) :
    Cuts (.symbol text) (Lexeme.literally text.toList) (fun t => t = text.toList) (symbolStart text) where
  exact := by
    intro t lexeme after
    simp [literally_eq_some_iff, Terminal.EndsBefore]
  begins := by
    rintro _ rfl
    obtain ⟨c, more, same, visible, -, goes⟩ := symbol_shape text known
    exact ⟨c, more, same, visible, by rw [symbolStart, same]; rfl, goes⟩
  mark := by
    obtain ⟨c, more, same, -, different, -⟩ := symbol_shape text known
    rw [symbolStart, same]
    simpa using different
  simple := by simp

theorem symbol_takes {text : String} (known : text ∈ Terminal.symbols) :
    (symbol text).Takes (.symbol text) (fun t _ => t = text.toList) (symbolStart text) := by
  refine takes_lexeme (fun t => t = text.toList) (fun _ => False) (symbol_cuts known) ?_ ?_
  · exact judges_all (fun _ => ()) (by simp) fun same => ⟨known, _, rfl, same⟩
  · rintro _ x rfl -
    exact ⟨text.toList, x, literally_eq_some_iff.mpr ⟨rfl, rfl⟩, id⟩

def integerStart (c : Char) : Prop := c.isDigit = true ∨ c = '-'

theorem integer_cuts : Cuts (.token .integer) Lexeme.integer IsInteger integerStart where
  exact := integer_eq_some_iff
  begins := by
    intro lexeme form
    cases form with
    | zero => exact ⟨'0', [], rfl, by decide, .inl (by decide), by simp⟩
    | @positive d ds leading digits =>
      have digit := isDigit_of_leading leading
      exact ⟨d, ds, rfl, isBlank_of_digit digit, .inl digit, goesOn_of_digits digits⟩
    | @negative d ds leading digits =>
      have all := digits_cons.mpr ⟨isDigit_of_leading leading, digits⟩
      exact ⟨'-', d :: ds, rfl, by decide, .inr rfl, goesOn_of_digits all⟩
  mark := by simp [integerStart, Char.isDigit]
  simple := by simp

theorem noDigit_of_noSplit (front : List Char) {ds x : List Char} (digits : Digits ds) (present : ds ≠ [])
    (border : NoSplit (front ++ ds) x) : NoDigit x := by
  rw [noSplit_append_left present] at border
  cases h : ds.getLast? with
  | none => exact absurd (List.getLast?_eq_none_iff.mp h) present
  | some a => exact fun b member => border a h b member (digits a (List.mem_of_getLast? h))

theorem noDigit_of_integer {text x : List Char} (form : IsInteger text) (border : NoSplit text x) : NoDigit x := by
  cases form with
  | zero => exact noDigit_of_noSplit [] (digits_cons.mpr ⟨by decide, digits_nil⟩) (by simp) border
  | positive leading digits =>
    exact noDigit_of_noSplit [] (digits_cons.mpr ⟨isDigit_of_leading leading, digits⟩) (by simp) border
  | negative leading digits =>
    exact noDigit_of_noSplit ['-'] (digits_cons.mpr ⟨isDigit_of_leading leading, digits⟩) (by simp) border

theorem inRange_iff {n : Int} {v : Int64} :
    v.toInt = n ↔ (Int64.minValue.toInt ≤ n ∧ n ≤ Int64.maxValue.toInt) ∧ v = .ofInt n := by
  constructor
  · rintro rfl
    exact ⟨⟨Int64.minValue_le_toInt v, Int64.toInt_le v⟩, (Int64.ofInt_toInt v).symm⟩
  · rintro ⟨⟨low, high⟩, rfl⟩
    rw [Int64.toInt_minValue] at low
    rw [Int64.toInt_maxValue] at high
    exact Int64.toInt_ofInt_of_le low (by omega)

theorem integer_takes : integer.Takes (.token .integer)
    (fun t n => IsInteger t ∧ n.toInt = integerValue t) integerStart := by
  refine takes_lexeme IsInteger (fun _ => False) integer_cuts ?_ ?_
  · refine judges_ranged (fun t => Int64.minValue.toInt ≤ integerValue t ∧ integerValue t ≤ Int64.maxValue.toInt)
      (fun t => Int64.ofInt (integerValue t)) ?_ ?_ .inl
    · exact and_congr_right fun _ => inRange_iff
    · exact fun means => ⟨_, _, rfl, means⟩
  · intro text x form border
    exact ⟨text, x, integer_eq_some_iff.mpr ⟨rfl, form, noDigit_of_integer form border⟩, id⟩

def floatStart (c : Char) : Prop := c.isDigit = true ∨ c = '-' ∨ c = '.'

theorem goesOn_of_pointed {whole fraction : List Char} (digits : Digits whole) (places : Digits fraction) :
    ∀ d ∈ whole ++ '.' :: fraction, goesOn d = true := by
  intro d member
  rcases List.mem_append.mp member with member | member
  · exact goesOn_of_digits digits d member
  · rcases List.mem_cons.mp member with rfl | member
    · decide
    · exact goesOn_of_digits places d member

theorem float_cuts : Cuts (.token .float) Lexeme.float IsFloat floatStart where
  exact := float_eq_some_iff
  begins := by
    have unsigned : ∀ {whole fraction : List Char}, Digits whole → Digits fraction →
        ∃ c more, whole ++ '.' :: fraction = c :: more ∧ isBlank c = false ∧ floatStart c ∧
          ∀ d ∈ more, goesOn d = true := by
      intro whole fraction digits places
      cases whole with
      | nil => exact ⟨'.', fraction, rfl, by decide, .inr (.inr rfl), goesOn_of_digits places⟩
      | cons d ds =>
        obtain ⟨digit, digits⟩ := digits_cons.mp digits
        exact ⟨d, _, rfl, isBlank_of_digit digit, .inl digit, goesOn_of_pointed digits places⟩
    intro lexeme form
    cases form with
    | @pointed minus whole fraction sign digits places =>
      rcases sign with rfl | rfl
      · exact unsigned digits places
      · exact ⟨'-', whole ++ '.' :: fraction, rfl, by decide, .inr (.inl rfl), goesOn_of_pointed digits places⟩
    | trailing digits => exact unsigned digits digits_nil
  mark := by simp [floatStart, Char.isDigit]
  simple := by simp

theorem float_longer {text x : List Char} (form : IsFloat text) (border : NoSplit text x) :
    ∃ long after, Lexeme.float (text ++ x) = some (long, after) := by
  cases form with
  | @pointed minus whole fraction sign digits places some =>
    have ends : NoDigit x := noDigit_of_noSplit (minus ++ whole ++ ['.']) places some (by simpa using border)
    exact ⟨_, x, float_eq_some_iff.mpr ⟨rfl, .pointed sign digits places some, ends⟩⟩
  | @trailing whole digits some =>
    obtain ⟨ds, after, rfl, places, stop⟩ := exists_digits x
    cases ds with
    | nil => exact ⟨_, after, float_eq_some_iff.mpr ⟨rfl, .trailing digits some, stop⟩⟩
    | cons d ds =>
      refine ⟨whole ++ '.' :: d :: ds, after, float_eq_some_iff.mpr ⟨by simp, ?_, stop⟩⟩
      exact @IsFloat.pointed [] _ _ (.inl rfl) digits places (by simp)

theorem float_takes : float.Takes (.token .float)
    (fun t x => IsFloat t ∧ x = floatValue t ∧ x.isFinite = true) floatStart := by
  refine takes_lexeme IsFloat (fun _ => False) float_cuts ?_ ?_
  · refine judges_ranged (fun t => (floatValue t).isFinite = true) floatValue ?_ ?_ .inr
    · intro t x
      refine and_congr_right fun _ => ⟨?_, ?_⟩
      · rintro ⟨rfl, finite⟩
        exact ⟨finite, rfl⟩
      · rintro ⟨finite, rfl⟩
        exact ⟨rfl, finite⟩
    · exact fun means => ⟨_, _, rfl, means⟩
  · intro text x form border
    obtain ⟨long, after, read⟩ := float_longer form border
    exact ⟨long, after, read, id⟩

theorem attributeIndex_cuts : Cuts (.token .attributeIndex) Lexeme.attributeIndex IsAttributeIndex (· = 'a') where
  exact := attributeIndex_eq_some_iff
  begins := by
    intro lexeme form
    cases form with
    | @mk ds digits some => exact ⟨'a', ds, rfl, by decide, rfl, goesOn_of_digits digits⟩
  mark := by decide
  simple := by simp

theorem attributeIndex_takes : attributeIndex.Takes (.token .attributeIndex)
    (fun t i => IsAttributeIndex t ∧ i.toNat = digitsValue (t.drop 1)) (· = 'a') := by
  refine takes_lexeme IsAttributeIndex (fun t => UInt64.size ≤ digitsValue (t.drop 1))
    attributeIndex_cuts ?_ ?_
  · exact {
      lexeme := fun means => ⟨_, _, rfl, means⟩
      formed := And.left
      matched := by
        intro t start next d v form h
        dsimp only at h ⊢
        split at h
        · rename_i fits
          cases h
          rw [if_pos fits]
          exact ⟨rfl, rfl, form, UInt64.toNat_ofNat_of_lt' fits⟩
        · cases h
      noMatch := by
        intro t start next h
        dsimp only at h ⊢
        split at h
        · cases h
        · rename_i large
          rw [if_neg large]
          exact ⟨by omega, rfl, rfl⟩
      invalid := by
        intro t start next d error _ h
        dsimp only at h
        split at h <;> cases h
      overlong := by
        intro t start next token form member
        dsimp only at member ⊢
        split at member
        · cases member
        · rename_i large
          rw [if_neg large]
          exact ⟨rfl, rfl, form, by omega, List.mem_singleton.mp member⟩
      shifted := by
        intro k t after c d h
        dsimp only
        split
        · exact shifted_matched _ (h.past _ _)
        · refine .noMatch rfl rfl ⟨rfl, ?_, fun _ => h.offset, fun none => by cases none⟩
          have offset := h.offset
          simp only [List.map_cons, List.map_nil, Overlong.shift, Cursor.past, List.cons.injEq, and_true,
            Overlong.mk.injEq, true_and]
          omega
      reads := by
        rintro t start next v ⟨-, same⟩
        dsimp only
        rw [if_pos (by rw [← same]; exact v.toNat_lt_size), ← same, UInt64.ofNat_toNat]
        rfl
      declined := by
        intro t start next _ large
        dsimp only
        rw [if_neg (by omega)] }
  · intro text x form border
    refine ⟨text, x, attributeIndex_eq_some_iff.mpr ⟨rfl, form, ?_⟩, id⟩
    cases form with
    | mk digits some => exact noDigit_of_noSplit ['a'] digits some border

theorem isAlphanum_of_alpha {c : Char} (h : c.isAlpha = true) : c.isAlphanum = true := by
  simp [Char.isAlphanum, h]

theorem identifier_cuts : Cuts (.token .identifier) Lexeme.identifier IsIdentifier (·.isAlpha = true) where
  exact := identifier_eq_some_iff
  begins := by
    intro lexeme form
    cases form with
    | @mk c more letter rest =>
      exact ⟨c, more, rfl, isBlank_of_alpha letter, letter, fun d member => isAlphanum_goesOn (rest d member)⟩
  mark := by decide
  simple := by simp

theorem identifier_takes : identifier.Takes (.token .identifier)
    (fun t name => IsIdentifier t ∧ name = .ofList t) (·.isAlpha = true) := by
  refine takes_lexeme IsIdentifier (fun _ => False) identifier_cuts ?_ ?_
  · refine judges_all String.ofList Iff.rfl ?_
    exact fun means => ⟨_, _, rfl, means⟩
  · intro text x form _
    cases form with
    | @mk c more letter rest =>
      -- The longest run of letters and digits from there on.
      refine ⟨c :: more ++ x.takeWhile Char.isAlphanum, x.dropWhile Char.isAlphanum,
        identifier_eq_some_iff.mpr ⟨?_, .mk letter ?_, head_dropWhile_stops _ x⟩, id⟩
      · rw [List.append_assoc, List.takeWhile_append_dropWhile]
      · intro d member
        rcases List.mem_append.mp member with member | member
        · exact rest d member
        · exact mem_takeWhile_holds d member

def comparatorStart (c : Char) : Prop := c ∈ ['=', '!', '<', '>']

theorem find_comparator_iff {text after : List Char} {op : Comparator} (h : text = op.symbol.toList) :
    Comparator.all.find? (fun op => op.symbol.toList.isPrefixOf (text ++ after)) = some op ↔
      (text.length = 1 → after.head? ≠ some '=') := by
  subst h
  cases after with
  | nil => cases op <;> decide
  | cons c after =>
    by_cases equals : c = '='
    · subst equals
      cases op <;> simp [Comparator.all, Comparator.symbol]
    · cases op <;> simp [Comparator.all, Comparator.symbol, equals, Ne.symm equals]

theorem comparator_shape (op : Comparator) : ∃ c more, op.symbol.toList = c :: more ∧ isBlank c = false ∧
    comparatorStart c ∧ ∀ d ∈ more, goesOn d = true := by
  cases op <;> exact ⟨_, _, rfl, by decide, List.mem_of_elem_eq_true rfl, by decide⟩

section comparator

variable {c : Cursor} {op : Comparator} {after : List Char}

theorem comparator_of_begins (same : c.skipBlanks.rest = op.symbol.toList ++ after)
    (full : op.symbol.toList.length = 1 → after.head? ≠ some '=') :
    comparator c = matched op (c.skipBlanks.past op.symbol.toList after) := by
  have found := (find_comparator_iff rfl).mpr full
  rw [← same] at found
  simp only [comparator, found]
  rw [same, List.drop_left]

theorem comparator_of_none (none : ∀ op : Comparator, ¬ op.symbol.toList <+: c.skipBlanks.rest) :
    comparator c = ⟨.noMatch, .attempt c.skipBlanks.offset (.token .comparator)⟩ := by
  have missing : Comparator.all.find? (fun op => op.symbol.toList.isPrefixOf c.skipBlanks.rest) = .none :=
    List.find?_eq_none.mpr fun op _ begins => none op (List.isPrefixOf_iff_prefix.mp begins)
  simp only [comparator, missing]

/-- A text begins with a comparator at full length, or with none. -/
theorem comparator_cases (text : List Char) :
    (∃ (op : Comparator) (after : List Char), text = op.symbol.toList ++ after ∧
      (op.symbol.toList.length = 1 → after.head? ≠ some '=')) ∨ ∀ op : Comparator, ¬ op.symbol.toList <+: text := by
  cases found : Comparator.all.find? (fun op => op.symbol.toList.isPrefixOf text) with
  | none =>
    refine .inr fun op begins => List.find?_eq_none.mp found op ?_ (List.isPrefixOf_iff_prefix.mpr begins)
    cases op <;> decide
  | some op =>
    obtain ⟨after, rfl⟩ : op.symbol.toList <+: text := by simpa using List.find?_some found
    exact .inl ⟨op, after, rfl, (find_comparator_iff rfl).mp found⟩

end comparator

theorem comparator_takes : comparator.Takes (.token .comparator) (fun t op => t = op.symbol.toList)
    comparatorStart where
  lexeme := fun means => ⟨_, _, rfl, means⟩
  begins := by
    rintro _ op rfl
    obtain ⟨c, more, same, visible, starts, -⟩ := comparator_shape op
    exact ⟨c, more, same, visible, starts⟩
  mark := by simp [comparatorStart]
  matched {c d v} h := by
    rcases comparator_cases c.skipBlanks.rest with ⟨op, after, same, full⟩ | none
    · rw [comparator_of_begins same full] at h ⊢
      cases h
      refine ⟨rfl, ?_, _, same, rfl, trivial, fun _ => full⟩
      rw [Cursor.textLength_past same, Cursor.textLength_skipBlanks]
    · rw [comparator_of_none none] at h
      cases h
  noMatch {c} h := by
    rcases comparator_cases c.skipBlanks.rest with ⟨op, after, same, full⟩ | none
    · rw [comparator_of_begins same full] at h
      cases h
    · rw [comparator_of_none none]
      exact ⟨rfl, rfl⟩
  invalid {c d error} h := by
    rcases comparator_cases c.skipBlanks.rest with ⟨op, after, same, full⟩ | none
    · rw [comparator_of_begins same full] at h
      cases h
    · rw [comparator_of_none none] at h
      cases h
  overlong {c token} member := by
    rcases comparator_cases c.skipBlanks.rest with ⟨op, after, same, full⟩ | none
    · rw [comparator_of_begins same full] at member
      cases member
    · rw [comparator_of_none none] at member
      cases member
  shifted {k c d} h := by
    rcases comparator_cases c.skipBlanks.rest with ⟨op, after, same, full⟩ | none
    · rw [comparator_of_begins same full, comparator_of_begins (h.rest ▸ same) full]
      exact shifted_matched op (h.past _ _)
    · rw [comparator_of_none none, comparator_of_none (h.rest ▸ none)]
      exact .noMatch rfl rfl (.attempt h _)
  reads {c text after op} means same closed := by
    subst means
    rw [comparator_of_begins same (closed.2 rfl)]
    exact ⟨_, rfl, rfl⟩
  fails {c} h := by
    rw [comparator_of_none]
    rintro op ⟨after, same⟩
    obtain ⟨ch, more, shape, -, starts, -⟩ := comparator_shape op
    refine h ch ?_ starts
    rw [Cursor.rest_skipBlanks] at same
    simp [lead, ← same, shape]
  persists {c e p x y} left right present border stop h := by
    rcases comparator_cases c.skipBlanks.rest with ⟨op, after, same, full⟩ | none
    · rw [comparator_of_begins same full] at h
      cases h
    · rw [comparator_of_none]
      rintro op ⟨after, same⟩
      obtain ⟨ch, more, shape, -, -, goes⟩ := comparator_shape op
      obtain ⟨q, rfl, -⟩ := within_of_append (by rw [shape]; exact goes) present stop (right.symm.trans same.symm)
      exact none op ⟨q ++ x, by rw [left, List.append_assoc]⟩

section string

variable {c : Cursor} {body after rest : List Char}

theorem string_of_body (same : c.skipBlanks.rest = '"' :: body ++ '"' :: after) (form : IsBody body) :
    string c = matched (.ofList (Quoted.unescape body)) (c.skipBlanks.past ('"' :: body ++ ['"']) after) := by
  simp [string, same, bodyOf_append form after]

theorem string_of_unclosed (opens : c.skipBlanks.rest = '"' :: rest) (unclosed : Quoted.bodyOf rest = none) :
    string c = ⟨.invalid (.ofUnterminated c.skipBlanks.offset) c.skipBlanks, .empty⟩ := by
  simp [string, opens, unclosed]

theorem string_of_other (other : c.skipBlanks.rest.head? ≠ some '"') :
    string c = ⟨.noMatch, .attempt c.skipBlanks.offset (.token .string)⟩ := by
  unfold string
  dsimp only
  split
  · rename_i rest opens
    rw [opens] at other
    exact absurd rfl other
  · rfl

/-- A text begins with a string, with a quote that is never closed, or with no quote. -/
theorem string_cases (text : List Char) :
    (∃ body after, text = '"' :: body ++ '"' :: after ∧ IsBody body) ∨
    (∃ rest, text = '"' :: rest ∧ Quoted.bodyOf rest = none) ∨ text.head? ≠ some '"' := by
  by_cases quote : text.head? = some '"'
  · obtain ⟨rest, rfl⟩ := List.head?_eq_some_iff.mp quote
    cases read : Quoted.bodyOf rest with
    | none => exact .inr (.inl ⟨rest, rfl, read⟩)
    | some pair =>
      obtain ⟨rfl, form⟩ := bodyOf_eq_some_iff.mp read
      exact .inl ⟨pair.1, pair.2, rfl, form⟩
  · exact .inr (.inr quote)

end string

theorem string_takes : string.Takes (.token .string)
    (fun t s => ∃ body, IsBody body ∧ t = '"' :: body ++ ['"'] ∧ s = .ofList (Quoted.unescape body)) (· = '"') where
  lexeme := fun means => ⟨_, _, rfl, means⟩
  begins := by
    rintro _ s ⟨body, -, rfl, -⟩
    exact ⟨'"', body ++ ['"'], rfl, by decide, rfl⟩
  mark := by decide
  matched {c d v} h := by
    rcases string_cases c.skipBlanks.rest with ⟨body, after, opens, form⟩ | ⟨rest, opens, unclosed⟩ | other
    · rw [string_of_body opens form] at h ⊢
      cases h
      have same : c.skipBlanks.rest = ('"' :: body ++ ['"']) ++ after := by simpa using opens
      refine ⟨rfl, ?_, _, same, ⟨body, form, rfl, rfl⟩, trivial, by simp⟩
      rw [Cursor.textLength_past same, Cursor.textLength_skipBlanks]
    · rw [string_of_unclosed opens unclosed] at h
      cases h
    · rw [string_of_other other] at h
      cases h
  noMatch {c} h := by
    rcases string_cases c.skipBlanks.rest with ⟨body, after, opens, form⟩ | ⟨rest, opens, unclosed⟩ | other
    · rw [string_of_body opens form] at h
      cases h
    · rw [string_of_unclosed opens unclosed] at h
      cases h
    · rw [string_of_other other]
      exact ⟨rfl, rfl⟩
  invalid {c d error} h := by
    rcases string_cases c.skipBlanks.rest with ⟨body, after, opens, form⟩ | ⟨rest, opens, unclosed⟩ | other
    · rw [string_of_body opens form] at h
      cases h
    · rw [string_of_unclosed opens unclosed] at h ⊢
      cases h
      exact ⟨rfl, .unterminated opens⟩
    · rw [string_of_other other] at h
      cases h
  overlong {c token} member := by
    rcases string_cases c.skipBlanks.rest with ⟨body, after, opens, form⟩ | ⟨rest, opens, unclosed⟩ | other
    · rw [string_of_body opens form] at member
      cases member
    · rw [string_of_unclosed opens unclosed] at member
      cases member
    · rw [string_of_other other] at member
      cases member
  shifted {k c d} h := by
    rcases string_cases c.skipBlanks.rest with ⟨body, after, opens, form⟩ | ⟨rest, opens, unclosed⟩ | other
    · rw [string_of_body opens form, string_of_body (h.rest.trans opens) form]
      exact shifted_matched _ (h.past _ _)
    · rw [string_of_unclosed opens unclosed, string_of_unclosed (h.rest.trans opens) unclosed]
      have moved : SyntaxError.ofUnterminated d.skipBlanks.offset = (SyntaxError.ofUnterminated c.skipBlanks.offset).shift k := by
        rw [h.offset]
        rfl
      rw [moved]
      exact .invalid rfl rfl .empty
    · rw [string_of_other other, string_of_other (h.rest ▸ other)]
      exact .noMatch rfl rfl (.attempt h _)
  reads := by
    rintro c _ after _ ⟨body, form, rfl, rfl⟩ same -
    rw [string_of_body (by simpa using same) form]
    exact ⟨_, rfl, rfl⟩
  fails {c} h := by
    rw [string_of_other]
    rw [Cursor.rest_skipBlanks]
    exact fun quote => h '"' quote rfl
  persists {c e p x y} left right present border stop h := by
    cases p with
    | nil => exact absurd rfl present
    | cons ch p =>
      rcases string_cases c.skipBlanks.rest with ⟨body, after, opens, form⟩ | ⟨rest, opens, unclosed⟩ | other
      · rw [string_of_body opens form] at h
        cases h
      · rw [string_of_unclosed opens unclosed] at h
        cases h
      · rw [string_of_other]
        rw [left] at other
        rwa [right]

end Token

end ChunkSelector
