import ChunkSelector.Proofs.Position
import ChunkSelector.Reading.Lexeme
import ChunkSelector.Text.Quoted

/-!
# Classes of lexemes

The lexemes of each class, given by their form alone. The `_eq_some_iff` lemmas show that a cut takes
a lexeme of its class at full length: the next character could not make it longer.
-/

namespace ChunkSelector.Lexeme

def Digits (text : List Char) : Prop := ∀ c ∈ text, c.isDigit = true

def NoDigit (after : List Char) : Prop := ∀ c ∈ after.head?, c.isDigit = false

inductive IsInteger : List Char → Prop where
  | zero : IsInteger ['0']
  | positive {d : Char} {ds : List Char} (leading : isLeadingDigit d = true) (digits : Digits ds) :
      IsInteger (d :: ds)
  | negative {d : Char} {ds : List Char} (leading : isLeadingDigit d = true) (digits : Digits ds) :
      IsInteger ('-' :: d :: ds)

inductive IsFloat : List Char → Prop where
  /-- A sign is allowed, and digits before the point are not needed. -/
  | pointed {minus whole fraction : List Char} (sign : minus = [] ∨ minus = ['-']) (digits : Digits whole)
      (places : Digits fraction) (some : fraction ≠ []) : IsFloat (minus ++ whole ++ '.' :: fraction)
  | trailing {whole : List Char} (digits : Digits whole) (some : whole ≠ []) : IsFloat (whole ++ ['.'])

inductive IsAttributeIndex : List Char → Prop where
  | mk {ds : List Char} (digits : Digits ds) (some : ds ≠ []) : IsAttributeIndex ('a' :: ds)

inductive IsIdentifier : List Char → Prop where
  | mk {c : Char} {more : List Char} (letter : c.isAlpha = true) (rest : ∀ d ∈ more, d.isAlphanum = true) :
      IsIdentifier (c :: more)

/-- What may stand between two quotes. -/
inductive IsBody : List Char → Prop where
  | nil : IsBody []
  | plain {c : Char} {body : List Char} (quote : c ≠ '"') (backslash : c ≠ '\\') (feed : c ≠ '\n')
      (rest : IsBody body) : IsBody (c :: body)
  | escape (c : Char) {body : List Char} (rest : IsBody body) : IsBody ('\\' :: c :: body)

/-! ### Digits -/

theorem digits_nil : Digits [] := by simp [Digits]

theorem digits_cons {d : Char} {ds : List Char} : Digits (d :: ds) ↔ d.isDigit = true ∧ Digits ds := by
  simp [Digits]

theorem digits_append_iff {a b : List Char} : Digits (a ++ b) ↔ Digits a ∧ Digits b := by
  simp [Digits, or_imp, forall_and]

theorem digits_eq_iff {text ds after : List Char} :
    digits text = (ds, after) ↔ text = ds ++ after ∧ Digits ds ∧ NoDigit after := by
  constructor
  · intro h
    obtain ⟨rfl, rfl⟩ := Prod.mk.inj h
    exact ⟨List.takeWhile_append_dropWhile.symm, mem_takeWhile_holds, head_dropWhile_stops Char.isDigit text⟩
  · rintro ⟨rfl, inside, stop⟩
    exact Prod.ext (takeWhile_eq_of_stop inside stop) (dropWhile_eq_of_stop inside stop)

theorem exists_digits (text : List Char) : ∃ ds after, text = ds ++ after ∧ Digits ds ∧ NoDigit after :=
  ⟨_, _, digits_eq_iff.mp (rfl : digits text = ((digits text).1, (digits text).2))⟩

theorem isDigit_of_leading {d : Char} (h : isLeadingDigit d = true) : d.isDigit = true := by
  simp only [isLeadingDigit, Bool.and_eq_true] at h
  exact h.1

theorem ne_minus_of_digit {d : Char} (h : d.isDigit = true) : d ≠ '-' := by
  rintro rfl
  exact absurd h (by decide)

theorem ne_zero_of_leading {d : Char} (h : isLeadingDigit d = true) : d ≠ '0' := by
  rintro rfl
  exact absurd h (by decide)

/-! ### Cuts at full length -/

theorem digits_append_of_stop {ds after : List Char} (inside : Digits ds) (stop : NoDigit after) :
    digits (ds ++ after) = (ds, after) :=
  digits_eq_iff.mpr ⟨rfl, inside, stop⟩

theorem prepend_digits_eq {first ds after rest : List Char}
    (h : prepend first (digits rest) = (ds, after)) :
    ∃ more, ds = first ++ more ∧ Digits more ∧ NoDigit after := by
  obtain ⟨same, inside, stop⟩ := digits_eq_iff.mp (rfl : digits rest = ((digits rest).1, (digits rest).2))
  obtain ⟨rfl, rfl⟩ := Prod.mk.inj h
  exact ⟨_, rfl, inside, stop⟩

theorem isInteger_of_integer {text lexeme after : List Char} (h : integer text = some (lexeme, after)) :
    IsInteger lexeme ∧ NoDigit after := by
  unfold integer at h
  split at h
  · split at h
    · rename_i rest empty
      obtain ⟨rfl, rfl⟩ := Prod.mk.inj (Option.some.inj h)
      have cut : digits rest = ([], (digits rest).2) :=
        Prod.ext (List.isEmpty_iff.mp empty) rfl
      obtain ⟨same, -, stop⟩ := digits_eq_iff.mp cut
      rw [List.nil_append] at same
      rw [← same] at stop
      exact ⟨.zero, stop⟩
    · simp at h
  · split at h
    · rename_i leading
      obtain ⟨more, rfl, inside, stop⟩ := prepend_digits_eq (Option.some.inj h)
      exact ⟨.negative leading inside, stop⟩
    · simp at h
  · split at h
    · rename_i leading
      obtain ⟨more, rfl, inside, stop⟩ := prepend_digits_eq (Option.some.inj h)
      exact ⟨.positive leading inside, stop⟩
    · simp at h
  · simp at h

theorem integer_append {lexeme after : List Char} (form : IsInteger lexeme) (stop : NoDigit after) :
    integer (lexeme ++ after) = some (lexeme, after) := by
  cases form with
  | zero =>
    have cut := digits_append_of_stop digits_nil stop
    rw [List.nil_append] at cut
    simp [integer, cut]
  | positive leading inside =>
    rw [List.cons_append, integer]
    · simp [leading, prepend, digits_append_of_stop inside stop]
    · exact ne_zero_of_leading leading
    · intro c rest minus
      exact absurd minus (ne_minus_of_digit (isDigit_of_leading leading))
  | negative leading inside =>
    rw [List.cons_append, List.cons_append, integer]
    simp [leading, prepend, digits_append_of_stop inside stop]

theorem integer_eq_some_iff {text lexeme after : List Char} :
    integer text = some (lexeme, after) ↔ text = lexeme ++ after ∧ IsInteger lexeme ∧ NoDigit after := by
  constructor
  · intro h
    exact ⟨(append_of_integer h).symm, isInteger_of_integer h⟩
  · rintro ⟨rfl, form, stop⟩
    exact integer_append form stop

theorem sign_eq (text : List Char) : (sign text).1 = [] ∨ (sign text).1 = ['-'] := by
  unfold sign
  split
  · exact .inr rfl
  · exact .inl rfl

theorem sign_of_not_minus {text : List Char} (h : ∀ c ∈ text.head?, c ≠ '-') : sign text = ([], text) := by
  unfold sign
  split
  · exact absurd rfl (h '-' (by simp))
  · rfl

theorem head_of_pointed {whole : List Char} (inside : Digits whole) (rest : List Char) :
    ∀ c ∈ (whole ++ '.' :: rest).head?, c ≠ '-' := by
  cases whole with
  | nil => simp
  | cons d whole =>
    intro c member
    obtain rfl : d = c := by simpa using member
    exact ne_minus_of_digit (inside d (by simp))

theorem sign_pointed {minus whole : List Char} (signed : minus = [] ∨ minus = ['-']) (inside : Digits whole)
    (rest : List Char) : sign (minus ++ whole ++ '.' :: rest) = (minus, whole ++ '.' :: rest) := by
  rcases signed with rfl | rfl
  · simpa using sign_of_not_minus (head_of_pointed inside rest)
  · simp [sign]

theorem noDigit_point (rest : List Char) : NoDigit ('.' :: rest) := by
  simp [NoDigit, show ('.' : Char).isDigit = false from by decide]

theorem isFloat_of_float {text lexeme after : List Char} (h : float text = some (lexeme, after)) :
    IsFloat lexeme ∧ NoDigit after := by
  unfold float at h
  dsimp only at h
  split at h
  · rename_i whole rest cut
    obtain ⟨-, inside, -⟩ := digits_eq_iff.mp cut
    obtain ⟨-, places, stop⟩ := digits_eq_iff.mp (rfl : digits rest = ((digits rest).1, (digits rest).2))
    split at h
    · simp at h
    · rename_i needed
      obtain ⟨rfl, rfl⟩ := Prod.mk.inj (Option.some.inj h)
      refine ⟨?_, stop⟩
      cases empty : (digits rest).1 with
      | nil =>
        -- Without places there are digits before the point, and no sign.
        simp only [empty, List.isEmpty_nil, Bool.true_and, Bool.or_eq_true, List.isEmpty_iff, Bool.not_eq_true',
          not_or, Bool.not_eq_false] at needed
        rw [needed.2, List.nil_append]
        exact .trailing inside needed.1
      | cons d ds =>
        rw [← empty]
        exact .pointed (sign_eq text) inside places (by simp [empty])
  · simp at h

theorem float_append {lexeme after : List Char} (form : IsFloat lexeme) (stop : NoDigit after) :
    float (lexeme ++ after) = some (lexeme, after) := by
  cases form with
  | @pointed minus whole fraction signed inside places some =>
    have cut : sign (minus ++ whole ++ '.' :: fraction ++ after) = (minus, whole ++ '.' :: (fraction ++ after)) := by
      rw [List.append_assoc, List.cons_append, sign_pointed signed inside]
    unfold float
    simp only [cut, digits_append_of_stop inside (noDigit_point _), digits_append_of_stop places stop]
    simp [some]
  | @trailing whole inside some =>
    have cut : sign (whole ++ ['.'] ++ after) = ([], whole ++ '.' :: after) := by
      rw [List.append_assoc]
      exact sign_pointed (.inl rfl) inside after
    unfold float
    have none := digits_append_of_stop digits_nil stop
    rw [List.nil_append] at none
    simp only [cut, digits_append_of_stop inside (noDigit_point _), none]
    simp [some]

theorem float_eq_some_iff {text lexeme after : List Char} :
    float text = some (lexeme, after) ↔ text = lexeme ++ after ∧ IsFloat lexeme ∧ NoDigit after := by
  constructor
  · intro h
    exact ⟨(append_of_float h).symm, isFloat_of_float h⟩
  · rintro ⟨rfl, form, stop⟩
    exact float_append form stop

theorem IsInteger.signed {text : List Char} (form : IsInteger text) :
    ∃ minus ds, text = minus ++ ds ∧ (minus = [] ∨ minus = ['-']) ∧ Digits ds ∧ ds ≠ [] := by
  cases form with
  | zero => exact ⟨[], ['0'], rfl, .inl rfl, digits_cons.mpr ⟨by decide, digits_nil⟩, by simp⟩
  | @positive d ds leading digits =>
    exact ⟨[], d :: ds, rfl, .inl rfl, digits_cons.mpr ⟨isDigit_of_leading leading, digits⟩, by simp⟩
  | @negative d ds leading digits =>
    exact ⟨['-'], d :: ds, rfl, .inr rfl, digits_cons.mpr ⟨isDigit_of_leading leading, digits⟩, by simp⟩

theorem sign_append_digits {minus ds : List Char} (signed : minus = [] ∨ minus = ['-']) (inside : Digits ds)
    (some : ds ≠ []) (after : List Char) : sign (minus ++ ds ++ after) = (minus, ds ++ after) := by
  rcases signed with rfl | rfl
  · refine sign_of_not_minus ?_
    cases ds with
    | nil => exact absurd rfl some
    | cons d ds =>
      intro c member
      obtain rfl : d = c := by simpa using member
      exact ne_minus_of_digit (inside d (by simp))
  · simp [sign]

theorem float_of_integer {text after : List Char} (form : IsInteger text) (stop : NoDigit after)
    (point : ∀ c ∈ after.head?, c ≠ '.') : float (text ++ after) = none := by
  obtain ⟨minus, ds, rfl, signed, inside, some⟩ := form.signed
  unfold float
  simp only [sign_append_digits signed inside some, digits_append_of_stop inside stop]
  split
  · rename_i same
    obtain ⟨-, rfl⟩ := Prod.mk.inj same
    exact absurd rfl (point '.' (by simp))
  · rfl

theorem attributeIndex_eq_some_iff {text lexeme after : List Char} :
    attributeIndex text = some (lexeme, after) ↔
      text = lexeme ++ after ∧ IsAttributeIndex lexeme ∧ NoDigit after := by
  constructor
  · intro h
    refine ⟨(append_of_attributeIndex h).symm, ?_⟩
    unfold attributeIndex at h
    split at h
    · split at h
      · rename_i digit
        obtain ⟨more, rfl, inside, stop⟩ := prepend_digits_eq (Option.some.inj h)
        exact ⟨.mk (digits_cons.mpr ⟨digit, inside⟩) (by simp), stop⟩
      · simp at h
    · simp at h
  · rintro ⟨rfl, form, stop⟩
    cases form with
    | @mk ds inside some =>
      cases ds with
      | nil => exact absurd rfl some
      | cons d ds =>
        obtain ⟨digit, inside⟩ := digits_cons.mp inside
        simp [attributeIndex, digit, prepend, digits_append_of_stop inside stop]

theorem identifier_eq_some_iff {text lexeme after : List Char} :
    identifier text = some (lexeme, after) ↔
      text = lexeme ++ after ∧ IsIdentifier lexeme ∧ ∀ c ∈ after.head?, c.isAlphanum = false := by
  constructor
  · intro h
    refine ⟨(append_of_identifier h).symm, ?_⟩
    unfold identifier at h
    split at h
    · split at h
      · rename_i letter
        obtain ⟨rfl, rfl⟩ := Prod.mk.inj (Option.some.inj h)
        exact ⟨.mk letter mem_takeWhile_holds, head_dropWhile_stops Char.isAlphanum _⟩
      · simp at h
    · simp at h
  · rintro ⟨rfl, form, stop⟩
    cases form with
    | mk letter rest =>
      rw [List.cons_append, identifier, if_pos letter, takeWhile_eq_of_stop rest stop,
        dropWhile_eq_of_stop rest stop]

theorem literally_eq_some_iff {wanted text lexeme after : List Char} :
    literally wanted text = some (lexeme, after) ↔ text = lexeme ++ after ∧ lexeme = wanted := by
  constructor
  · intro h
    refine ⟨(append_of_literally h).symm, ?_⟩
    unfold literally at h
    split at h
    · exact (Prod.mk.inj (Option.some.inj h)).1.symm
    · simp at h
  · rintro ⟨rfl, rfl⟩
    simp [literally]

/-! ### Strings -/

theorem isBody_of_bodyOf {text body after : List Char} (h : Quoted.bodyOf text = some (body, after)) :
    IsBody body := by
  fun_induction Quoted.bodyOf text generalizing body with
  | case1 => simp at h
  | case2 => simp at h
  | case3 c rest ih =>
    obtain ⟨⟨body, after⟩, read, same⟩ := Option.map_eq_some_iff.mp h
    obtain ⟨rfl, rfl⟩ := Prod.mk.inj same
    exact .escape c (ih read)
  | case4 rest =>
    obtain ⟨rfl, rfl⟩ := Prod.mk.inj (Option.some.inj h)
    exact .nil
  | case5 => simp at h
  | case6 c rest last backslash quote feed ih =>
    obtain ⟨⟨body, after⟩, read, same⟩ := Option.map_eq_some_iff.mp h
    obtain ⟨rfl, rfl⟩ := Prod.mk.inj same
    refine .plain quote ?_ feed (ih read)
    rintro rfl
    cases rest with
    | nil => exact last rfl rfl
    | cons d rest => exact backslash d rest rfl rfl

theorem bodyOf_append {body : List Char} (form : IsBody body) (after : List Char) :
    Quoted.bodyOf (body ++ '"' :: after) = some (body, after) := by
  induction form with
  | nil => rfl
  | plain quote backslash feed _ ih => simp [Quoted.bodyOf_plain quote backslash feed, ih]
  | escape c _ ih => simp [Quoted.bodyOf, ih]

theorem bodyOf_eq_some_iff {text body after : List Char} :
    Quoted.bodyOf text = some (body, after) ↔ text = body ++ '"' :: after ∧ IsBody body := by
  constructor
  · intro h
    exact ⟨Quoted.append_of_bodyOf h, isBody_of_bodyOf h⟩
  · rintro ⟨rfl, form⟩
    exact bodyOf_append form after

end ChunkSelector.Lexeme
