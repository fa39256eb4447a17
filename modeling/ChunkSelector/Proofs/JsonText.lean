import ChunkSelector.Json
import ChunkSelector.Proofs.Decimal
import ChunkSelector.Proofs.Writing

/-!
# JSON texts

`Json.write_cancel`: no two values are written alike, whatever stands behind them, as long as their
floats are finite. A number is told apart by what it reads back as, a string by its escapes, and an
array or object by its parts.
-/

namespace ChunkSelector

open Lexeme Token

namespace Json

/-! ### Numbers -/

/-- A power of ten, or nothing for the power zero. -/
inductive IsPower : List Char → Int → Prop where
  | none : IsPower [] 0
  | written (e : Int) : IsPower ('e' :: (if e < 0 then '-' else '+') :: Nat.toDigits 10 e.natAbs) e

/-- Further digits stand behind a point. -/
def pointed (fraction power : List Char) : List Char :=
  if fraction.isEmpty then power else '.' :: (fraction ++ power)

/-- Digits with a point or a power of ten among them, which stand for the decimal. -/
structure Shows (whole fraction power : List Char) (e : Int) (d : Decimal) : Prop where
  digits : Digits whole
  some : whole ≠ []
  places : Digits fraction
  scale : IsPower power e
  marked : fraction ≠ [] ∨ power ≠ []
  value : (digitsValue (whole ++ fraction) : ℚ) * 10 ^ (e - fraction.length) = d.digits * 10 ^ d.exponent

theorem positional_shows (d : Decimal) : ∃ whole fraction, d.positional = whole ++ pointed fraction [] ∧ Shows whole fraction [] 0 d := by
  obtain ⟨whole, fraction, shown, digits, some, places, last, value⟩ := Decimal.positional_spec d
  refine ⟨whole, fraction, ?_, digits, some, places, .none, .inl last, by rw [zero_sub, value]⟩
  rw [shown, pointed, if_neg (by simpa using last), List.append_nil]

theorem scientific_shows (d : Decimal) :
    ∃ whole fraction power, d.scientific = whole ++ pointed fraction power ∧ Shows whole fraction power d.firstPlace d := by
  obtain ⟨digits, some, value⟩ := Decimal.significant_spec d
  cases shape : d.significantDigits with
  | nil => exact absurd shape some
  | cons first more =>
    rw [shape] at digits value
    obtain ⟨digit, places⟩ := digits_cons.mp digits
    have last : d.firstPlace - more.length = d.lastPlace := by
      rw [Decimal.firstPlace, shape, List.length_cons]
      omega
    refine ⟨[first], more, _, ?_, digits_cons.mpr ⟨digit, digits_nil⟩, by simp, places, .written _, .inr (by simp), ?_⟩
    · unfold Decimal.scientific
      rw [shape]
      cases more with
      | nil => rfl
      | cons second more => simp [pointed]
    · rw [List.singleton_append, last, value]

def exponentValue : List Char → Int
  | 'e' :: '-' :: digits => -digitsValue digits
  | 'e' :: '+' :: digits => digitsValue digits
  | _ => 0

/-- The double nearest to what a number stands for. -/
def floatValue (text : List Char) : Binary64 :=
  let (minus, unsigned) := Lexeme.sign text
  let (whole, rest) := Lexeme.digits unsigned
  let (fraction, power) := match rest with
    | '.' :: more => Lexeme.digits more
    | power => ([], power)
  .ofDecimal (!minus.isEmpty) (digitsValue (whole ++ fraction)) (exponentValue power - fraction.length)

theorem IsPower.value {power : List Char} {e : Int} (h : IsPower power e) : exponentValue power = e := by
  cases h with
  | none => rfl
  | written =>
    split
    · rw [exponentValue, Decimal.digitsValue_toDigits]
      omega
    · rw [exponentValue, Decimal.digitsValue_toDigits]
      omega

theorem IsPower.head {power : List Char} {e : Int} (h : IsPower power e) : ∀ c ∈ power.head?, c = 'e' := by
  cases h <;> simp

theorem IsPower.noDigit {power : List Char} {e : Int} (h : IsPower power e) : NoDigit power := by
  intro c member
  rw [h.head c member]
  decide

theorem floatValue_of_shows {minus whole fraction power : List Char} {e : Int} {d : Decimal} (h : Shows whole fraction power e d)
    (signed : minus = [] ∨ minus = ['-']) :
    floatValue (minus ++ (whole ++ pointed fraction power)) = .ofDecimal (!minus.isEmpty) d.digits d.exponent := by
  have cut := sign_append_digits signed h.digits h.some (pointed fraction power)
  rw [List.append_assoc] at cut
  have parts : Lexeme.digits (whole ++ pointed fraction power) = (whole, pointed fraction power) := by
    refine digits_append_of_stop h.digits ?_
    unfold pointed
    split
    · exact h.scale.noDigit
    · exact noDigit_point _
  have rest : (match pointed fraction power with
      | '.' :: more => Lexeme.digits more
      | power => ([], power)) = (fraction, power) := by
    unfold pointed
    cases fraction with
    | nil =>
      split
      · rename_i more same
        have begins : power = '.' :: more := same
        exact absurd (h.scale.head '.' (by simp [begins])) (by decide)
      · rfl
    | cons c fraction => exact digits_append_of_stop h.places h.scale.noDigit
  unfold floatValue
  rw [cut]
  simp only [parts, rest, h.scale.value]
  exact Binary64.ofDecimal_congr _ h.value

/-- A finite float is written with its sign and then digits that show its shortest decimal. -/
theorem floatText_shows {x : Binary64} (finite : x.isFinite = true) : ∃ whole fraction power e,
    floatText x = (if x.negative then ['-'] else []) ++ (whole ++ pointed fraction power) ∧
      Shows whole fraction power e (Decimal.shortest .even x) := by
  unfold floatText
  rw [if_pos finite]
  dsimp only
  cases isPositional (Decimal.shortest .even x).firstPlace with
  | true =>
    obtain ⟨whole, fraction, text, shows⟩ := positional_shows (Decimal.shortest .even x)
    exact ⟨whole, fraction, [], 0, by rw [if_pos rfl, text], shows⟩
  | false =>
    obtain ⟨whole, fraction, power, text, shows⟩ := scientific_shows (Decimal.shortest .even x)
    exact ⟨whole, fraction, power, _, by rw [if_neg Bool.false_ne_true, text], shows⟩

/-- The number of a finite float reads back as that float, with its sign. -/
theorem floatText_reads_back {x : Binary64} (finite : x.isFinite = true) : floatValue (floatText x) = x := by
  obtain ⟨whole, fraction, power, e, text, shows⟩ := floatText_shows finite
  have signed : (if x.negative then ['-'] else []) = [] ∨ (if x.negative then ['-'] else []) = ['-'] := by
    split <;> simp
  have sign : (!(if x.negative then ['-'] else []).isEmpty) = x.negative := by
    cases x.negative <;> rfl
  have back := Decimal.readsBack_shortest .even finite
  rw [Decimal.readsBack, beq_iff_eq] at back
  rw [text, floatValue_of_shows shows signed, Binary64.ofDecimal_eq_ofMagnitude, back, sign, Binary64.ofMagnitude_magnitude]

/-- A character of a number. -/
def inNumber (c : Char) : Bool := c.isDigit || ['-', '+', '.', 'e'].contains c

/-- The text does not go on with a number. -/
def Ends (after : List Char) : Prop := ∀ c ∈ after.head?, inNumber c = false

theorem inNumber_of_digits {ds : List Char} (h : Digits ds) : ∀ c ∈ ds, inNumber c = true := by
  intro c member
  simp [inNumber, h c member]

theorem inNumber_of_signed {minus : List Char} (h : minus = [] ∨ minus = ['-']) : ∀ c ∈ minus, inNumber c = true := by
  rcases h with rfl | rfl
  · simp
  · simp [inNumber]

theorem append_inj_of_number {a b x y : List Char} (left : ∀ c ∈ a, inNumber c = true) (right : ∀ c ∈ b, inNumber c = true)
    (hx : Ends x) (hy : Ends y) (same : a ++ x = b ++ y) : a = b ∧ x = y := by
  have fronts := congrArg (List.takeWhile inNumber) same
  have backs := congrArg (List.dropWhile inNumber) same
  rw [takeWhile_eq_of_stop left hx, takeWhile_eq_of_stop right hy] at fronts
  rw [dropWhile_eq_of_stop left hx, dropWhile_eq_of_stop right hy] at backs
  exact ⟨fronts, backs⟩

/-- A whole number has neither a point nor a power of ten. -/
theorem integerText_plain (n : Int) : ∀ c ∈ integerText n, inNumber c = true ∧ c ≠ '.' ∧ c ≠ 'e' := by
  obtain ⟨minus, ds, shape, signed, digits, -⟩ := (integerText_reads_back n).1.signed
  rw [shape]
  intro c member
  rcases List.mem_append.mp member with member | member
  · refine ⟨inNumber_of_signed signed c member, ?_⟩
    rcases signed with rfl | rfl
    · simp at member
    · obtain rfl := List.mem_singleton.mp member
      decide
  · refine ⟨inNumber_of_digits digits c member, ?_⟩
    have digit := digits c member
    constructor
    · rintro rfl
      exact absurd digit (by decide)
    · rintro rfl
      exact absurd digit (by decide)

theorem integerText_injective : Function.Injective integerText := by
  intro n m same
  rw [← (integerText_reads_back n).2, ← (integerText_reads_back m).2, same]

theorem IsPower.inNumber {power : List Char} {e : Int} (h : IsPower power e) : ∀ c ∈ power, inNumber c = true := by
  cases h with
  | none => simp
  | written =>
    intro c member
    rcases List.mem_cons.mp member with rfl | member
    · decide
    · rcases List.mem_cons.mp member with rfl | member
      · split <;> decide
      · exact inNumber_of_digits (Decimal.digits_toDigits _) c member

/-- A float has a point or a power of ten. -/
theorem floatText_marked {x : Binary64} (finite : x.isFinite = true) :
    (∀ c ∈ floatText x, inNumber c = true) ∧ ∃ c ∈ floatText x, c = '.' ∨ c = 'e' := by
  obtain ⟨whole, fraction, power, e, text, shows⟩ := floatText_shows finite
  have signed : (if x.negative then ['-'] else []) = [] ∨ (if x.negative then ['-'] else []) = ['-'] := by
    split <;> simp
  have inside : ∀ c ∈ pointed fraction power, inNumber c = true := by
    unfold pointed
    split
    · exact shows.scale.inNumber
    · intro c member
      rcases List.mem_cons.mp member with rfl | member
      · decide
      · rcases List.mem_append.mp member with member | member
        · exact inNumber_of_digits shows.places c member
        · exact shows.scale.inNumber c member
  have mark : ∃ c ∈ pointed fraction power, c = '.' ∨ c = 'e' := by
    unfold pointed
    split
    · rename_i empty
      have present : power ≠ [] := shows.marked.resolve_left (by simpa using empty)
      obtain ⟨c, rest, rfl⟩ := List.exists_cons_of_ne_nil present
      exact ⟨c, by simp, .inr (shows.scale.head c (by simp))⟩
    · exact ⟨'.', by simp, .inl rfl⟩
  rw [text]
  refine ⟨fun c member => ?_, ?_⟩
  · rcases List.mem_append.mp member with member | member
    · exact inNumber_of_signed signed c member
    · rcases List.mem_append.mp member with member | member
      · exact inNumber_of_digits shows.digits c member
      · exact inside c member
  · obtain ⟨c, member, which⟩ := mark
    exact ⟨c, by simp [member], which⟩

/-! ### Strings -/

def hexValue (c : Char) : Nat := if c.isDigit then c.toNat - '0'.toNat else c.toNat - 'a'.toNat + 10

/-- The character of a code, in hexadecimal digits. -/
def ofCode (digits : List Char) : Char := .ofNat (digits.foldl (fun code d => 16 * code + hexValue d) 0)

/-- What an escape of one character stands for. -/
def ofEscape : Char → Char
  | 'b' => '\x08'
  | 't' => '\t'
  | 'n' => '\n'
  | 'f' => '\x0c'
  | 'r' => '\r'
  | c => c

/-- The first character of a string that goes on, and what follows it. -/
def readChar : List Char → Option (Char × List Char)
  | [] | '"' :: _ => none
  | '\\' :: 'u' :: rest => some (ofCode (rest.take 4), rest.drop 4)
  | '\\' :: c :: rest => some (ofEscape c, rest)
  | c :: rest => some (c, rest)

theorem controlEscape_reads_back {c : Char} (control : c.toNat < 0x20) :
    ∃ code, controlEscape c = '\\' :: 'u' :: code ∧ code.length = 4 ∧ ofCode code = c := by
  have all : ∀ n < 0x20, ((controlEscape (.ofNat n)).drop 2).length = 4 ∧ ofCode ((controlEscape (.ofNat n)).drop 2) = .ofNat n := by
    decide
  obtain ⟨length, code⟩ := all c.toNat control
  rw [Char.ofNat_toNat] at length code
  exact ⟨_, rfl, length, code⟩

/-- A character reads back, whatever follows it. -/
theorem escapeChar_reads_back (c : Char) (rest : List Char) : readChar (escapeChar c ++ rest) = some (c, rest) := by
  unfold escapeChar
  split
  iterate 7 rfl
  rename_i quote backslash _ _ _ _ _
  split
  · rename_i control
    obtain ⟨code, shape, length, same⟩ := controlEscape_reads_back control
    rw [shape]
    simp [readChar, ← length, same]
  · rw [List.singleton_append, readChar]
    · exact quote
    · exact fun _ begins _ => backslash begins
    · exact fun _ _ begins _ => backslash begins

theorem string_cancel {s t x y : List Char} (same : s.flatMap escapeChar ++ '"' :: x = t.flatMap escapeChar ++ '"' :: y) :
    s = t ∧ x = y := by
  induction s generalizing t with
  | nil =>
    cases t with
    | nil => exact ⟨rfl, List.tail_eq_of_cons_eq same⟩
    | cons d t =>
      rw [List.flatMap_cons, List.append_assoc] at same
      have read := congrArg readChar same
      rw [escapeChar_reads_back] at read
      cases read
  | cons c s ih =>
    rw [List.flatMap_cons, List.append_assoc] at same
    have read := congrArg readChar same
    rw [escapeChar_reads_back] at read
    cases t with
    | nil => cases read
    | cons d t =>
      rw [List.flatMap_cons, List.append_assoc, escapeChar_reads_back] at read
      obtain ⟨rfl, more⟩ := Prod.mk.inj (Option.some.inj read)
      obtain ⟨rfl, behind⟩ := ih more
      exact ⟨rfl, behind⟩

theorem stringText_cancel {s t : String} {x y : List Char} (same : stringText s ++ x = stringText t ++ y) : s = t ∧ x = y := by
  simp only [stringText, List.cons_append, List.append_assoc, List.cons.injEq, true_and] at same
  obtain ⟨chars, behind⟩ := string_cancel same
  exact ⟨String.toList_inj.mp chars, behind⟩

/-! ### Arrays and objects -/

/-- Texts of the two are told apart, or are the same as far as they go. -/
def Apart (w : α → List Char) (a b : α) : Prop :=
  ∀ {x y : List Char}, Ends x → Ends y → w a ++ x = w b ++ y → a = b ∧ x = y

/-- A closing bracket, or a line break before one: neither a number nor another item goes on with it. -/
def Closes (close : List Char) : Prop := ∃ c rest, close = c :: rest ∧ c ≠ ',' ∧ inNumber c = false

section bracketed

variable {α : Type} {w : α → List Char} {style : Style} {depth : Nat} {opening closing : Char} {x y : List Char}

/-- The items behind the first one, and what follows them. -/
def further (w : α → List Char) (glue : List Char) (items : List α) (close : List Char) : List Char :=
  (items.map w).flatMap (',' :: glue ++ ·) ++ close

theorem ends_further (glue : List Char) (items : List α) {close : List Char} (closes : Closes close) :
    Ends (further w glue items close) := by
  intro d member
  cases items with
  | nil =>
    obtain ⟨c, rest, rfl, -, ends⟩ := closes
    obtain rfl : c = d := by simpa [further] using member
    exact ends
  | cons a items =>
    obtain rfl : ',' = d := by simpa [further] using member
    decide

theorem further_cancel {glue left right : List Char} (hl : Closes left) (hr : Closes right) {as bs : List α}
    (apart : ∀ a ∈ as, ∀ b ∈ bs, Apart w a b) (same : further w glue as left = further w glue bs right) :
    as = bs ∧ left = right := by
  induction as generalizing bs with
  | nil =>
    cases bs with
    | nil => exact ⟨rfl, same⟩
    | cons b bs =>
      obtain ⟨c, rest, rfl, other, -⟩ := hl
      exact absurd (List.cons.inj same).1 other
  | cons a as ih =>
    cases bs with
    | nil =>
      obtain ⟨c, rest, rfl, other, -⟩ := hr
      exact absurd (List.cons.inj same).1.symm other
    | cons b bs =>
      simp only [further, List.map_cons, List.flatMap_cons, List.append_assoc, List.cons_append, List.cons.injEq, true_and,
        List.append_cancel_left_eq] at same
      obtain ⟨rfl, more⟩ := apart a (by simp) b (by simp) (ends_further glue as hl) (ends_further glue bs hr) same
      obtain ⟨rfl, behind⟩ := ih (fun a inside b member => apart a (by simp [inside]) b (by simp [member])) more
      exact ⟨rfl, behind⟩

theorem bracketed_cons (first : α) (more : List α) : bracketed style depth opening closing ((first :: more).map w) ++ x =
    opening :: (newLine style (depth + 1) ++ (w first ++ further w (newLine style (depth + 1)) more (newLine style depth ++ closing :: x))) := by
  rw [List.map_cons, bracketed, Phrase.Writes.intercalate_cons]
  simp only [further, List.append_assoc, List.cons_append, List.nil_append]

/-- What stands between the last item and the closing bracket. -/
theorem closes_newLine (bracket : closing = ']' ∨ closing = '\x7d') (x : List Char) :
    Closes (newLine style depth ++ closing :: x) := by
  cases style with
  | indented => exact ⟨'\n', _, rfl, by decide, by decide⟩
  | compact =>
    refine ⟨closing, x, rfl, ?_⟩
    rcases bracket with rfl | rfl <;> decide

theorem ne_first_item (bracket : closing = ']' ∨ closing = '\x7d') {first : α} (starts : ∃ c rest, w first = c :: rest ∧ c ≠ closing)
    (more : List Char) : closing :: x ≠ newLine style (depth + 1) ++ (w first ++ more) := by
  intro same
  cases style with
  | indented =>
    obtain ⟨rfl, -⟩ := List.cons.inj same
    revert bracket
    decide
  | compact =>
    obtain ⟨c, rest, shape, other⟩ := starts
    rw [shape] at same
    exact other (List.cons.inj same).1.symm

/-- Items in brackets are told apart if each of them is, and none begins with the closing bracket. -/
theorem bracketed_cancel (bracket : closing = ']' ∨ closing = '\x7d') {as bs : List α}
    (starts : ∀ b, b ∈ as ∨ b ∈ bs → ∃ c rest, w b = c :: rest ∧ c ≠ closing) (apart : ∀ a ∈ as, ∀ b ∈ bs, Apart w a b)
    (same : bracketed style depth opening closing (as.map w) ++ x = bracketed style depth opening closing (bs.map w) ++ y) :
    as = bs ∧ x = y := by
  cases as with
  | nil =>
    cases bs with
    | nil => exact ⟨rfl, List.append_cancel_left same⟩
    | cons b bs =>
      rw [bracketed_cons] at same
      exact absurd (List.cons.inj same).2 (ne_first_item bracket (starts b (by simp)) _)
  | cons a as =>
    cases bs with
    | nil =>
      rw [bracketed_cons] at same
      exact absurd (List.cons.inj same).2.symm (ne_first_item bracket (starts a (by simp)) _)
    | cons b bs =>
      rw [bracketed_cons, bracketed_cons] at same
      have items := List.append_cancel_left (List.cons.inj same).2
      have hl : Closes (newLine style depth ++ closing :: x) := closes_newLine bracket x
      have hr : Closes (newLine style depth ++ closing :: y) := closes_newLine bracket y
      obtain ⟨rfl, more⟩ := apart a (by simp) b (by simp) (ends_further _ as hl) (ends_further _ bs hr) items
      obtain ⟨rfl, behind⟩ := further_cancel hl hr (fun c inside d member => apart c (by simp [inside]) d (by simp [member])) more
      exact ⟨rfl, (List.cons.inj (List.append_cancel_left behind)).2⟩

end bracketed

/-! ### Values -/

/-- Every float in the value is finite. -/
inductive Finite : Json → Prop where
  | null : Finite .null
  | bool (value : Bool) : Finite (.bool value)
  | int (value : Int) : Finite (.int value)
  | float {value : Binary64} (finite : value.isFinite = true) : Finite (.float value)
  | string (value : String) : Finite (.string value)
  | array {items : List Json} (each : ∀ j ∈ items, Finite j) : Finite (.array items)
  | object {members : List (String × Json)} (each : ∀ m ∈ members, Finite m.2) : Finite (.object members)

def memberText (style : Style) (depth : Nat) (m : String × Json) : List Char :=
  stringText m.1 ++ colon style ++ write style depth m.2

theorem writeItems_eq_map (style : Style) (depth : Nat) (items : List Json) :
    writeItems style depth items = items.map (write style depth) := by
  induction items with
  | nil => rfl
  | cons first more ih => rw [writeItems, List.map_cons, ih]

theorem writeMembers_eq_map (style : Style) (depth : Nat) (members : List (String × Json)) :
    writeMembers style depth members = members.map (memberText style depth) := by
  induction members with
  | nil => rfl
  | cons first more ih => rw [writeMembers, List.map_cons, ih, memberText]

/-- What the first character of a value tells: all numbers count as one, and so do both truth values. -/
def sort (c : Char) : Char := if inNumber c then '0' else if c = 'f' then 't' else c

def opening : Json → Char
  | .null => 'n'
  | .bool _ => 't'
  | .int _ | .float _ => '0'
  | .string _ => '"'
  | .array _ => '['
  | .object _ => '\x7b'

theorem bracketed_opening (style : Style) (depth : Nat) (opening closing : Char) (texts : List (List Char)) :
    ∃ rest, bracketed style depth opening closing texts = opening :: rest := by
  cases texts <;> exact ⟨_, rfl⟩

theorem write_opening {j : Json} (finite : j.Finite) (style : Style) (depth : Nat) :
    ∃ c rest, write style depth j = c :: rest ∧ sort c = j.opening := by
  have number {text : List Char} (present : text ≠ []) (inside : ∀ c ∈ text, inNumber c = true) :
      ∃ c rest, text = c :: rest ∧ sort c = '0' := by
    obtain ⟨c, rest, rfl⟩ := List.exists_cons_of_ne_nil present
    exact ⟨c, rest, rfl, by rw [sort, if_pos (inside c (by simp))]⟩
  cases finite with
  | null => exact ⟨'n', _, rfl, by decide⟩
  | bool value => cases value <;> exact ⟨_, _, rfl, by decide⟩
  | int value =>
    refine number (fun empty => ?_) fun c member => (integerText_plain value c member).1
    have form := (integerText_reads_back value).1
    rw [write] at empty
    rw [empty] at form
    cases form
  | float finite =>
    obtain ⟨inside, c, member, -⟩ := floatText_marked finite
    exact number (List.ne_nil_of_mem member) inside
  | string value => exact ⟨'"', _, rfl, rfl⟩
  | array each =>
    obtain ⟨rest, shape⟩ := bracketed_opening style depth '[' ']' (writeItems style (depth + 1) _)
    exact ⟨'[', rest, by rw [write, shape], rfl⟩
  | object each =>
    obtain ⟨rest, shape⟩ := bracketed_opening style depth '\x7b' '\x7d' (writeMembers style (depth + 1) _)
    exact ⟨'\x7b', rest, by rw [write, shape], rfl⟩

section cancel

variable {style : Style} {depth : Nat} {j k : Json} {x y : List Char}

theorem opening_eq (hj : j.Finite) (hk : k.Finite) (same : write style depth j ++ x = write style depth k ++ y) :
    j.opening = k.opening := by
  obtain ⟨c, front, left, first⟩ := write_opening hj style depth
  obtain ⟨d, back, right, second⟩ := write_opening hk style depth
  rw [left, right] at same
  rw [← first, ← second, (List.cons.inj same).1]

/-- A closing bracket opens no value. -/
theorem starts_inside (hj : j.Finite) {closing : Char} (bracket : closing = ']' ∨ closing = '\x7d') :
    ∃ c rest, write style depth j = c :: rest ∧ c ≠ closing := by
  obtain ⟨c, rest, shape, first⟩ := write_opening hj style depth
  refine ⟨c, rest, shape, ?_⟩
  rintro rfl
  have other : ∀ k : Json, k.opening ≠ ']' ∧ k.opening ≠ '\x7d' := by
    intro k
    cases k <;> exact ⟨by simp [opening], by simp [opening]⟩
  rcases bracket with rfl | rfl
  · exact (other j).1 first.symm
  · exact (other j).2 first.symm

theorem bool_cancel {a b : Bool} (same : write style depth (.bool a) ++ x = write style depth (.bool b) ++ y) : a = b ∧ x = y := by
  cases a <;> cases b
  · exact ⟨rfl, List.append_cancel_left same⟩
  · exact absurd (List.cons.inj same).1 (by decide)
  · exact absurd (List.cons.inj same).1 (by decide)
  · exact ⟨rfl, List.append_cancel_left same⟩

/-- A whole number is never written like a float. -/
theorem integerText_ne_floatText (n : Int) {value : Binary64} (finite : value.isFinite = true) : integerText n ≠ floatText value := by
  intro same
  obtain ⟨-, c, member, which⟩ := floatText_marked finite
  obtain ⟨-, point, power⟩ := integerText_plain n c (same ▸ member)
  exact which.elim point power

/-- Two values are written alike in front of an end only if they are the same. -/
theorem write_cancel (hj : j.Finite) (hk : k.Finite) : Apart (write style depth) j k := by
  intro x y hx hy same
  have front := opening_eq hj hk same
  induction hj generalizing k depth x y with
  | null =>
    cases hk with
    | null => exact ⟨rfl, List.append_cancel_left same⟩
    | _ => simp [opening] at front
  | bool a =>
    cases hk with
    | bool b =>
      obtain ⟨rfl, behind⟩ := bool_cancel same
      exact ⟨rfl, behind⟩
    | _ => simp [opening] at front
  | int n =>
    have inside : ∀ c ∈ integerText n, inNumber c = true := fun c member => (integerText_plain n c member).1
    cases hk with
    | int m =>
      obtain ⟨text, behind⟩ := append_inj_of_number inside (fun c member => (integerText_plain m c member).1) hx hy same
      exact ⟨congrArg Json.int (integerText_injective text), behind⟩
    | float finite =>
      obtain ⟨text, -⟩ := append_inj_of_number inside (floatText_marked finite).1 hx hy same
      exact absurd text (integerText_ne_floatText n finite)
    | _ => simp [opening] at front
  | @float a finite =>
    have inside := (floatText_marked finite).1
    cases hk with
    | int m =>
      obtain ⟨text, -⟩ := append_inj_of_number inside (fun c member => (integerText_plain m c member).1) hx hy same
      exact absurd text.symm (integerText_ne_floatText m finite)
    | @float b other =>
      obtain ⟨text, behind⟩ := append_inj_of_number inside (floatText_marked other).1 hx hy same
      have value : a = b := by rw [← floatText_reads_back finite, ← floatText_reads_back other, text]
      exact ⟨congrArg Json.float value, behind⟩
    | _ => simp [opening] at front
  | string a =>
    cases hk with
    | string b =>
      obtain ⟨rfl, behind⟩ := stringText_cancel same
      exact ⟨rfl, behind⟩
    | _ => simp [opening] at front
  | @array items each ih =>
    cases hk with
    | @array others all =>
      rw [write, write, writeItems_eq_map, writeItems_eq_map] at same
      have starts : ∀ b, b ∈ items ∨ b ∈ others → ∃ c rest, write style (depth + 1) b = c :: rest ∧ c ≠ ']' :=
        fun b member => starts_inside (member.elim (each b) (all b)) (.inl rfl)
      have apart : ∀ a ∈ items, ∀ b ∈ others, Apart (write style (depth + 1)) a b :=
        fun a inside b member x y hx hy same => ih a inside (all b member) hx hy same (opening_eq (each a inside) (all b member) same)
      obtain ⟨rfl, behind⟩ := bracketed_cancel (.inl rfl) starts apart same
      exact ⟨rfl, behind⟩
    | _ => simp [opening] at front
  | @object members each ih =>
    cases hk with
    | @object others all =>
      rw [write, write, writeMembers_eq_map, writeMembers_eq_map] at same
      have starts : ∀ b, b ∈ members ∨ b ∈ others → ∃ c rest, memberText style (depth + 1) b = c :: rest ∧ c ≠ '\x7d' :=
        fun b _ => ⟨'"', _, rfl, by decide⟩
      have apart : ∀ a ∈ members, ∀ b ∈ others, Apart (memberText style (depth + 1)) a b := by
        intro a inside b member x y hx hy same
        simp only [memberText, List.append_assoc] at same
        obtain ⟨name, more⟩ := stringText_cancel same
        have value := List.append_cancel_left more
        obtain ⟨content, behind⟩ := ih a inside (all b member) hx hy value (opening_eq (each a inside) (all b member) value)
        exact ⟨Prod.ext name content, behind⟩
      obtain ⟨rfl, behind⟩ := bracketed_cancel (.inr rfl) starts apart same
      exact ⟨rfl, behind⟩
    | _ => simp [opening] at front

theorem text_injective (hj : j.Finite) (hk : k.Finite) (same : j.text style = k.text style) : j = k := by
  have texts : write style 0 j ++ [] = write style 0 k ++ [] := by
    rw [List.append_nil, List.append_nil]
    exact String.ofList_injective same
  have ends : Ends [] := by simp [Ends]
  exact (write_cancel hj hk ends ends texts).1

end cancel

end Json

end ChunkSelector
