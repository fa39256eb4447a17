import ChunkSelector.Proofs.Decimal
import ChunkSelector.Proofs.Nearest
import ChunkSelector.Proofs.Rule
import ChunkSelector.Reading.Reader

/-!
# Numbers

A float is the longest text of its form and stands for the nearest double. An integer has no digit behind it
and stands for its exact value. `Reader.attempt_number` says so for every text and every cursor in it, and
that a number is a float wherever there is one.
-/

namespace ChunkSelector

open Lexeme

namespace Lexeme

variable {text lexeme after a b : List Char}

/-- The text begins with the lexeme, and with no longer one of that form. -/
structure Longest (form : List Char → Prop) (text lexeme after : List Char) : Prop where
  whole : text = lexeme ++ after
  formed : form lexeme
  longest (other : List Char) : other <+: text → form other → other.length ≤ lexeme.length

/-- The sign of a float and its digits on either side of the point. -/
structure Pointed (text minus whole fraction : List Char) : Prop where
  text_eq : text = minus ++ whole ++ '.' :: fraction
  signed : minus = [] ∨ minus = ['-']
  inside : Digits whole
  places : Digits fraction

theorem IsFloat.pointed_parts (form : IsFloat text) : ∃ minus whole fraction, Pointed text minus whole fraction := by
  cases form with
  | @pointed minus whole fraction sign digits places _ => exact ⟨minus, whole, fraction, rfl, sign, digits, places⟩
  | @trailing whole digits _ => exact ⟨[], whole, [], rfl, .inl rfl, digits, digits_nil⟩

theorem Pointed.cuts {minus whole fraction : List Char} (parts : Pointed text minus whole fraction) :
    sign text = (minus, whole ++ '.' :: fraction) ∧ digits (whole ++ '.' :: fraction) = (whole, '.' :: fraction) := by
  rw [parts.text_eq, sign_pointed parts.signed parts.inside]
  exact ⟨rfl, digits_append_of_stop parts.inside (noDigit_point fraction)⟩

theorem Pointed.unique {minus whole fraction minus' whole' fraction' : List Char} (parts : Pointed text minus whole fraction)
    (other : Pointed text minus' whole' fraction') : minus = minus' ∧ whole = whole' ∧ fraction = fraction' := by
  obtain ⟨sign, digits⟩ := parts.cuts
  obtain ⟨sign', digits'⟩ := other.cuts
  obtain ⟨minus_eq, rest⟩ := Prod.mk.inj (sign.symm.trans sign')
  rw [rest] at digits
  obtain ⟨whole_eq, behind⟩ := Prod.mk.inj (digits.symm.trans digits')
  exact ⟨minus_eq, whole_eq, (List.cons.inj behind).2⟩

theorem IsFloat.snoc (form : IsFloat text) {d : Char} (digit : d.isDigit = true) : IsFloat (text ++ [d]) := by
  have one : Digits [d] := digits_cons.mpr ⟨digit, digits_nil⟩
  cases form with
  | @pointed minus whole fraction sign digits places _ =>
    rw [List.append_assoc, List.cons_append]
    exact .pointed sign digits (digits_append_iff.mpr ⟨places, one⟩) (by simp)
  | @trailing whole digits _ =>
    rw [List.append_assoc, List.singleton_append]
    exact @IsFloat.pointed [] whole [d] (.inl rfl) digits one (by simp)

theorem IsFloat.append_digits (form : IsFloat text) {ds : List Char} (digits : Digits ds) : IsFloat (text ++ ds) := by
  induction ds generalizing text with
  | nil => rwa [List.append_nil]
  | cons d ds ih =>
    obtain ⟨digit, digits⟩ := digits_cons.mp digits
    rw [List.append_cons]
    exact ih (form.snoc digit) digits

/-- A float goes on with digits only. -/
theorem IsFloat.digits_behind (short : IsFloat a) (long : IsFloat (a ++ b)) : Digits b := by
  obtain ⟨minus, whole, fraction, parts⟩ := short.pointed_parts
  obtain ⟨minus', whole', fraction', parts'⟩ := long.pointed_parts
  have sign := parts'.cuts.1
  rw [parts.text_eq, List.append_assoc, List.cons_append, sign_pointed parts.signed parts.inside] at sign
  have digits := parts'.cuts.2
  rw [← (Prod.mk.inj sign).2, digits_append_of_stop parts.inside (noDigit_point _)] at digits
  obtain ⟨-, tails⟩ := Prod.mk.inj digits
  have places := parts'.places
  rw [← (List.cons.inj tails).2] at places
  exact (digits_append_iff.mp places).2

theorem float_eq_some_iff_longest : float text = some (lexeme, after) ↔ Longest IsFloat text lexeme after := by
  rw [float_eq_some_iff]
  constructor
  · rintro ⟨rfl, form, stop⟩
    refine ⟨rfl, form, fun other begins otherForm => ?_⟩
    by_contra longer
    -- What is longer goes on with the character behind the lexeme, which is no digit.
    obtain ⟨extra, rfl⟩ : lexeme <+: other :=
      List.prefix_of_prefix_length_le (List.prefix_append _ _) begins (by omega)
    have digits := form.digits_behind otherForm
    cases extra with
    | nil => simp at longer
    | cons d extra =>
      obtain ⟨rest, same⟩ := begins
      rw [List.append_assoc, List.append_cancel_left_eq] at same
      have plain := stop d (by rw [← same]; rfl)
      rw [digits d List.mem_cons_self] at plain
      cases plain
  · rintro ⟨rfl, form, longest⟩
    refine ⟨rfl, form, fun d member => ?_⟩
    by_contra digit
    obtain ⟨more, rfl⟩ := List.head?_eq_some_iff.mp member
    have longer := longest (lexeme ++ [d]) ⟨more, by simp⟩ (form.snoc (by simpa using digit))
    simp at longer

theorem float_eq_none_iff : float text = none ↔ ∀ lexeme, lexeme <+: text → ¬ IsFloat lexeme := by
  constructor
  · rintro none lexeme ⟨after, rfl⟩ form
    obtain ⟨ds, rest, rfl, digits, stop⟩ := exists_digits after
    have read := float_append (form.append_digits digits) stop
    rw [List.append_assoc, none] at read
    cases read
  · intro none
    cases read : float text with
    | none => rfl
    | some pair =>
      obtain ⟨rfl, form, -⟩ := float_eq_some_iff.mp read
      exact absurd form (none _ (List.prefix_append _ _))

theorem IsInteger.not_isFloat (form : IsInteger text) : ¬ IsFloat text := by
  intro float
  have stop : NoDigit [] := by simp [NoDigit]
  have none := float_of_integer form stop (by simp)
  have read := float_append float stop
  rw [none] at read
  cases read

theorem IsInteger.append_digits (form : IsInteger text) (nonzero : text ≠ ['0']) {ds : List Char} (digits : Digits ds) :
    IsInteger (text ++ ds) := by
  cases form with
  | zero => exact absurd rfl nonzero
  | positive leading inside => exact .positive leading (digits_append_iff.mpr ⟨inside, digits⟩)
  | negative leading inside => exact .negative leading (digits_append_iff.mpr ⟨inside, digits⟩)

/-- An integer begins the text if digits without a leading zero do, or a zero with no digit behind it. -/
theorem exists_integer_iff : (∃ lexeme after, text = lexeme ++ after ∧ IsInteger lexeme ∧ NoDigit after) ↔
    (∃ lexeme, lexeme <+: text ∧ IsInteger lexeme ∧ lexeme ≠ ['0']) ∨ ∃ after, text = '0' :: after ∧ NoDigit after := by
  constructor
  · rintro ⟨lexeme, after, rfl, form, stop⟩
    by_cases zero : lexeme = ['0']
    · exact .inr ⟨after, by rw [zero]; rfl, stop⟩
    · exact .inl ⟨lexeme, List.prefix_append _ _, form, zero⟩
  · rintro (⟨lexeme, ⟨after, rfl⟩, form, nonzero⟩ | ⟨after, rfl, stop⟩)
    · obtain ⟨ds, rest, rfl, digits, stop⟩ := exists_digits after
      exact ⟨lexeme ++ ds, rest, (List.append_assoc _ _ _).symm, form.append_digits nonzero digits, stop⟩
    · exact ⟨['0'], after, rfl, .zero, stop⟩

theorem integer_eq_none_iff :
    integer text = none ↔ ¬ ∃ lexeme after, text = lexeme ++ after ∧ IsInteger lexeme ∧ NoDigit after := by
  constructor
  · rintro none ⟨lexeme, after, written⟩
    cases none.symm.trans (integer_eq_some_iff.mpr written)
  · intro none
    cases read : integer text with
    | none => rfl
    | some pair => exact absurd ⟨_, _, integer_eq_some_iff.mp read⟩ none

/-- There is no zero with a sign or with digits behind it, and no sign away from its digits. -/
theorem integer_of_broken {c d : Char} {more : List Char}
    (broken : c = '-' ∧ isLeadingDigit d = false ∨ c = '0' ∧ d.isDigit = true) : integer (c :: d :: more) = none := by
  rcases broken with ⟨rfl, other⟩ | ⟨rfl, digit⟩
  · simp [integer, other]
  · have behind : (digits (d :: more)).1 = d :: more.takeWhile Char.isDigit := by simp [digits, digit]
    rw [integer, behind]
    rfl

/-- A float with a sign has a digit behind its point. -/
theorem float_of_minus_point {ds : List Char} (inside : Digits ds) (stop : NoDigit after) :
    float ('-' :: ds ++ '.' :: after) = none := by
  have cut : sign ('-' :: ds ++ '.' :: after) = (['-'], ds ++ '.' :: after) := rfl
  have nothing : (digits after).1 = [] := congrArg Prod.fst (digits_append_of_stop digits_nil stop)
  unfold float
  simp only [cut, digits_append_of_stop inside (noDigit_point after), nothing]
  simp

theorem IsInteger.digits_of_minus {ds : List Char} (form : IsInteger ('-' :: ds)) : Digits ds := by
  cases form with
  | positive leading => exact absurd leading (by decide)
  | negative leading digits => exact digits_cons.mpr ⟨isDigit_of_leading leading, digits⟩

end Lexeme

namespace Token

theorem inRange_iff_bounds {n : Int} :
    Int64.minValue.toInt ≤ n ∧ n ≤ Int64.maxValue.toInt ↔ -2 ^ 63 ≤ n ∧ n ≤ 2 ^ 63 - 1 := by
  rw [Int64.toInt_minValue, Int64.toInt_maxValue]

variable {text minus whole fraction : List Char}

/-- A float stands for the double nearest to the number that its digits make. -/
theorem floatValue_isNearest (parts : Pointed text minus whole fraction) : (floatValue text).negative = (!minus.isEmpty) ∧
    (floatValue text).IsNearest (Binary64.signed (!minus.isEmpty) (digitsValue (whole ++ fraction) / 10 ^ fraction.length)) := by
  have value := Binary64.ofDecimal_isNearest (!minus.isEmpty) (digitsValue (whole ++ fraction)) (-(fraction.length : ℤ))
  rw [parts.text_eq, floatValue_pointed parts.signed parts.inside]
  rw [zpow_neg, zpow_natCast, ← div_eq_mul_inv] at value
  exact ⟨Binary64.negative_ofDecimal _ _ _, value⟩

end Token

namespace Reader

variable {α β : Type} {reader : Reader} {rule other : Rule α} {result : Except SyntaxError (Option α)} {c d : Cursor}
  {text after : List Char}

/-- What trying a rule comes to, and where the cursor is then. -/
def Gives (reader : Reader) (rule : Rule α) (result : Except SyntaxError (Option α)) (cursor : Cursor) : Prop :=
  (reader.attempt rule).1 = result ∧ (reader.attempt rule).2.cursor = cursor

theorem gives_of_matched {v : α} (h : (rule reader.cursor).verdict = .matched v d) : reader.Gives rule (.ok (some v)) d := by
  simp [Gives, attempt, h]

theorem gives_of_noMatch (h : (rule reader.cursor).verdict = .noMatch) : reader.Gives rule (.ok none) reader.cursor := by
  simp [Gives, attempt, h]

theorem gives_of_invalid {error : SyntaxError} (h : (rule reader.cursor).verdict = .invalid error d) :
    reader.Gives rule (.error error) d := by
  simp [Gives, attempt, h]

theorem noMatch_of_none (h : (reader.attempt rule).1 = .ok none) : (rule reader.cursor).verdict = .noMatch := by
  cases verdict : (rule reader.cursor).verdict with
  | matched v d => cases (gives_of_matched verdict).1.symm.trans h
  | noMatch => rfl
  | invalid error d => cases (gives_of_invalid verdict).1.symm.trans h

theorem gives_map (f : α → β) (rule : Rule α) (reader : Reader) :
    reader.Gives (f <$> rule) ((reader.attempt rule).1.map (Option.map f)) (reader.attempt rule).2.cursor := by
  rw [show (f <$> rule) = (rule >>= fun v => pure (f v)) from rfl]
  cases verdict : (rule reader.cursor).verdict with
  | matched v d =>
    obtain ⟨result, cursor⟩ := gives_of_matched verdict
    rw [result, cursor]
    exact gives_of_matched (by rw [Rule.bind_of_matched verdict]; rfl)
  | noMatch =>
    obtain ⟨result, cursor⟩ := gives_of_noMatch verdict
    rw [result, cursor]
    exact gives_of_noMatch (by rw [Rule.bind_of_noMatch verdict])
  | invalid error d =>
    obtain ⟨result, cursor⟩ := gives_of_invalid verdict
    rw [result, cursor]
    exact gives_of_invalid (by rw [Rule.bind_of_invalid verdict])

theorem Gives.orElse_left (h : reader.Gives rule result c) (some : result ≠ .ok none) : reader.Gives (rule <|> other) result c := by
  obtain ⟨rfl, rfl⟩ := h
  have same : (rule <|> other) reader.cursor = rule reader.cursor := by
    cases verdict : (rule reader.cursor).verdict with
    | matched v d => exact Rule.orElse_of_matched verdict
    | noMatch => exact absurd (gives_of_noMatch verdict).1 some
    | invalid error d => exact Rule.orElse_of_invalid verdict
  unfold Gives attempt
  rw [same]
  exact ⟨rfl, rfl⟩

theorem Gives.orElse_right (h : reader.Gives other result c) (none : (reader.attempt rule).1 = .ok none) :
    reader.Gives (rule <|> other) result c := by
  obtain ⟨rfl, rfl⟩ := h
  have failed := noMatch_of_none none
  have there : ((rule <|> other) reader.cursor).verdict = (other reader.cursor).verdict := by
    rw [Rule.orElse_of_noMatch failed]
    rfl
  unfold Gives attempt
  dsimp only
  rw [there]
  cases (other reader.cursor).verdict with
  | matched v d => exact ⟨rfl, rfl⟩
  | noMatch => exact ⟨rfl, rfl⟩
  | invalid error d => exact ⟨rfl, rfl⟩

/-! ### Lexemes of numbers -/

section lexeme

variable {kind : Expected} {cut : List Char → Option (List Char × List Char)}
  {meaning : List Char → Cursor → Cursor → Step α} {fits : List Char → Prop} [DecidablePred fits] {value : List Char → α}

theorem gives_of_cut_none (absent : cut reader.cursor.skipBlanks.rest = none) :
    reader.Gives (Token.lexeme kind cut meaning) (.ok none) reader.cursor :=
  gives_of_noMatch (congrArg Step.verdict (Token.lexeme_of_none absent))

theorem gives_of_cut (read : cut reader.cursor.skipBlanks.rest = some (text, after)) :
    reader.Gives (Token.lexeme kind cut fun text start next =>
        if fits text then Token.matched (value text) next else Token.outOfRange text start next)
      (if fits text then .ok (some (value text)) else .error (.ofNumber text reader.cursor.skipBlanks.offset))
      (reader.cursor.skipBlanks.past text after) := by
  unfold Gives attempt
  rw [Token.lexeme_of_cut read]
  dsimp only
  by_cases inside : fits text
  · rw [if_pos inside, if_pos inside]
    exact ⟨rfl, rfl⟩
  · rw [if_neg inside, if_neg inside]
    exact ⟨rfl, rfl⟩

theorem ite_ne_none {p : Prop} [Decidable p] {v : α} {error : SyntaxError} :
    (if p then .ok (some v) else .error error : Except SyntaxError (Option α)) ≠ .ok none := by
  split <;> simp

/-- A number is read wherever its lexeme can be cut off. -/
theorem attempt_eq_none_iff : (reader.attempt (Token.lexeme kind cut fun text start next =>
      if fits text then Token.matched (value text) next else Token.outOfRange text start next)).1 = .ok none ↔
    cut reader.cursor.skipBlanks.rest = none := by
  constructor
  · intro absent
    cases read : cut reader.cursor.skipBlanks.rest with
    | none => rfl
    | some pair => exact absurd ((gives_of_cut read).1.symm.trans absent) ite_ne_none
  · exact fun absent => (gives_of_cut_none absent).1

end lexeme

theorem float_eq_none_iff : (reader.attempt Token.float).1 = .ok none ↔
    ∀ lexeme, lexeme <+: reader.cursor.skipBlanks.rest → ¬ IsFloat lexeme :=
  attempt_eq_none_iff.trans Lexeme.float_eq_none_iff

theorem integer_eq_none_iff : (reader.attempt Token.integer).1 = .ok none ↔
    ¬ ∃ lexeme after, reader.cursor.skipBlanks.rest = lexeme ++ after ∧ IsInteger lexeme ∧ NoDigit after :=
  attempt_eq_none_iff.trans Lexeme.integer_eq_none_iff

theorem gives_float (longest : Longest IsFloat reader.cursor.skipBlanks.rest text after) :
    reader.Gives Token.float (if (Token.floatValue text).isFinite then .ok (some (Token.floatValue text))
      else .error (.ofNumber text reader.cursor.skipBlanks.offset)) (reader.cursor.skipBlanks.past text after) :=
  gives_of_cut (float_eq_some_iff_longest.mpr longest)

theorem gives_integer (written : reader.cursor.skipBlanks.rest = text ++ after) (form : IsInteger text) (stop : NoDigit after) :
    reader.Gives Token.integer
      (if Int64.minValue.toInt ≤ Token.integerValue text ∧ Token.integerValue text ≤ Int64.maxValue.toInt then
        .ok (some (.ofInt (Token.integerValue text)))
      else .error (.ofNumber text reader.cursor.skipBlanks.offset)) (reader.cursor.skipBlanks.past text after) :=
  gives_of_cut (integer_eq_some_iff.mpr ⟨written, form, stop⟩)

/-- How the reader reads floats, integers and numbers behind the blanks at its cursor. -/
structure LexesNumbers (reader : Reader) : Prop where
  float_iff : (reader.attempt Token.float).1 ≠ .ok none ↔
    ∃ text, text <+: reader.cursor.skipBlanks.rest ∧ IsFloat text
  /-- A float has its greatest length and is the nearest double, if that is a finite one. -/
  float {text after : List Char} (longest : Longest IsFloat reader.cursor.skipBlanks.rest text after) :
    ∃ minus whole fraction x, Pointed text minus whole fraction ∧ x.negative = (!minus.isEmpty) ∧
      x.IsNearest (Binary64.signed (!minus.isEmpty) (Token.digitsValue (whole ++ fraction) / 10 ^ fraction.length)) ∧
      reader.Gives Token.float
        (if x.isFinite then .ok (some x) else .error (.ofNumber text reader.cursor.skipBlanks.offset))
        (reader.cursor.skipBlanks.past text after)
  integer_iff : (reader.attempt Token.integer).1 ≠ .ok none ↔
    (∃ text, text <+: reader.cursor.skipBlanks.rest ∧ IsInteger text ∧ text ≠ ['0']) ∨
      ∃ after, reader.cursor.skipBlanks.rest = '0' :: after ∧ NoDigit after
  /-- An integer has no digit behind it and is its exact value, if that has 64 bits. -/
  integer {text after : List Char} (written : reader.cursor.skipBlanks.rest = text ++ after) (form : IsInteger text)
      (stop : NoDigit after) :
    (-2 ^ 63 ≤ Token.integerValue text ∧ Token.integerValue text ≤ 2 ^ 63 - 1 →
      ∃ n : Int64, n.toInt = Token.integerValue text ∧
        reader.Gives Token.integer (.ok (some n)) (reader.cursor.skipBlanks.past text after)) ∧
    (¬ (-2 ^ 63 ≤ Token.integerValue text ∧ Token.integerValue text ≤ 2 ^ 63 - 1) →
      reader.Gives Token.integer (.error (.ofNumber text reader.cursor.skipBlanks.offset))
        (reader.cursor.skipBlanks.past text after))
  number_of_float (some : (reader.attempt Token.float).1 ≠ .ok none) :
    reader.Gives Token.number ((reader.attempt Token.float).1.map (Option.map .float)) (reader.attempt Token.float).2.cursor
  number_of_integer (none : (reader.attempt Token.float).1 = .ok none) :
    reader.Gives Token.number ((reader.attempt Token.integer).1.map (Option.map .int))
      (reader.attempt Token.integer).2.cursor
  stays {α : Type} (rule : Rule α) (none : (reader.attempt rule).1 = .ok none) :
    (reader.attempt rule).2.cursor = reader.cursor
  apart {text : List Char} : IsInteger text → ¬ IsFloat text
  /-- There is no zero with a sign or with digits behind it, and no sign away from its digits. -/
  integer_none {a b : Char} {more : List Char} (written : reader.cursor.skipBlanks.rest = a :: b :: more)
      (broken : a = '-' ∧ (b = '0' ∨ isBlank b = true) ∨ a = '0' ∧ b.isDigit = true) :
    reader.Gives Token.integer (.ok none) reader.cursor
  /-- With a sign and no digit behind it, the point is not part of the number. -/
  number_before_point {ds after : List Char} {n : Int64} (form : IsInteger ('-' :: ds)) (stop : NoDigit after)
      (written : reader.cursor.skipBlanks.rest = '-' :: ds ++ '.' :: after) (value : n.toInt = Token.integerValue ('-' :: ds)) :
    reader.Gives Token.number (.ok (some (.int n))) (reader.cursor.skipBlanks.past ('-' :: ds) ('.' :: after))

theorem number_of_float (present : (reader.attempt Token.float).1 ≠ .ok none) :
    reader.Gives Token.number ((reader.attempt Token.float).1.map (Option.map .float)) (reader.attempt Token.float).2.cursor := by
  refine (gives_map Number.float Token.float reader).orElse_left ?_
  cases result : (reader.attempt Token.float).1 with
  | error error => simp [Except.map]
  | ok value =>
    cases value with
    | none => exact absurd result present
    | some x => simp [Except.map]

theorem number_of_integer (absent : (reader.attempt Token.float).1 = .ok none) :
    reader.Gives Token.number ((reader.attempt Token.integer).1.map (Option.map .int))
      (reader.attempt Token.integer).2.cursor := by
  refine (gives_map Number.int Token.integer reader).orElse_right ?_
  rw [(gives_map Number.float Token.float reader).1, absent]
  rfl

/-- Numbers are lexed as their forms say, at every cursor and in every text. -/
theorem attempt_number (reader : Reader) : reader.LexesNumbers where
  float_iff := by
    rw [ne_eq, float_eq_none_iff]
    push Not
    rfl
  float longest := by
    obtain ⟨minus, whole, fraction, parts⟩ := longest.formed.pointed_parts
    obtain ⟨sign, nearest⟩ := Token.floatValue_isNearest parts
    exact ⟨minus, whole, fraction, _, parts, sign, nearest, gives_float longest⟩
  integer_iff := by rw [ne_eq, integer_eq_none_iff, not_not, exists_integer_iff]
  integer {text after} written form stop := by
    have given := gives_integer written form stop
    refine ⟨fun inside => ?_, fun beyond => ?_⟩
    · rw [← Token.inRange_iff_bounds] at inside
      rw [if_pos inside] at given
      exact ⟨_, Token.inRange_iff.mpr ⟨inside, rfl⟩, given⟩
    · rw [← Token.inRange_iff_bounds] at beyond
      rwa [if_neg beyond] at given
  number_of_float := number_of_float
  number_of_integer := number_of_integer
  stays rule absent := (gives_of_noMatch (noMatch_of_none absent)).2
  apart form := form.not_isFloat
  integer_none {a b more} written broken := by
    refine gives_of_cut_none ?_
    rw [written]
    refine integer_of_broken (broken.imp (And.imp_right ?_) id)
    rintro (rfl | blank)
    · rfl
    · cases digit : b.isDigit with
      | false => simp [isLeadingDigit, digit]
      | true =>
        rw [Token.isBlank_of_digit digit] at blank
        cases blank
  number_before_point {ds after n} form stop written value := by
    have absent : (reader.attempt Token.float).1 = .ok none := by
      refine attempt_eq_none_iff.mpr ?_
      rw [written]
      exact float_of_minus_point form.digits_of_minus stop
    have given := gives_integer written form (noDigit_point after)
    obtain ⟨inside, rfl⟩ := Token.inRange_iff.mp value
    rw [if_pos inside] at given
    have number := number_of_integer absent
    rwa [given.1, given.2] at number

/-- An integer in front of a point, and a float with zeros in front. -/
theorem attempt_number_of_points :
    (ofText "-3.".toList).Gives Token.number (.ok (some (.int (-3)))) ⟨2, ['.']⟩ ∧
    ∃ x : Binary64, x.IsNearest (15 / 2) ∧ (ofText " 007.5/".toList).Gives Token.float
      (if x.isFinite then .ok (some x) else .error (.ofNumber "007.5".toList 1)) ⟨6, ['/']⟩ := by
  have three : IsInteger ['-', '3'] := .negative rfl digits_nil
  have before := (attempt_number (ofText "-3.".toList)).number_before_point (n := -3) three (by simp [NoDigit]) rfl rfl
  refine ⟨before, ?_⟩
  have longest : Longest IsFloat "007.5/".toList ['0', '0', '7', '.', '5'] ['/'] := float_eq_some_iff_longest.mp (by rfl)
  obtain ⟨minus, whole, fraction, x, parts, -, nearest, given⟩ := (attempt_number (ofText " 007.5/".toList)).float longest
  have known : Pointed ['0', '0', '7', '.', '5'] [] ['0', '0', '7'] ['5'] :=
    ⟨rfl, .inl rfl, by unfold Digits; decide, by unfold Digits; decide⟩
  obtain ⟨rfl, rfl, rfl⟩ := parts.unique known
  have value : Token.digitsValue (['0', '0', '7'] ++ ['5']) = 75 := by decide
  have number : Binary64.signed false ((75 : ℕ) / 10 ^ 1) = 15 / 2 := by norm_num [Binary64.signed]
  rw [value] at nearest
  exact ⟨x, number ▸ nearest, given⟩

end Reader

end ChunkSelector
