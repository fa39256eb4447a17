/-!
# Lexemes

Each function here cuts the longest lexeme of one kind off the start of a text: the lexeme, and
what follows it. The `append_of_` lemmas say that nothing is lost in a cut.
-/

namespace ChunkSelector.Lexeme

/-- A digit other than zero. -/
def isLeadingDigit (c : Char) : Bool := c.isDigit && c != '0'

/-- The longest run of digits, which may be empty. -/
def digits (text : List Char) : List Char × List Char :=
  (text.takeWhile Char.isDigit, text.dropWhile Char.isDigit)

def sign : List Char → List Char × List Char
  | '-' :: after => (['-'], after)
  | text => ([], text)

def prepend (first : List Char) (cut : List Char × List Char) : List Char × List Char :=
  (first ++ cut.1, cut.2)

/-- Digits without a leading zero, or a zero that no digit follows. Only the former take a sign. -/
def integer : List Char → Option (List Char × List Char)
  | '0' :: after => if (digits after).1.isEmpty then some (['0'], after) else none
  | '-' :: c :: after => if isLeadingDigit c then some (prepend ['-', c] (digits after)) else none
  | c :: after => if isLeadingDigit c then some (prepend [c] (digits after)) else none
  | [] => none

/-- Digits around a point, or on one side of it. A sign needs a digit after the point. -/
def float (text : List Char) : Option (List Char × List Char) :=
  let minus := (sign text).1
  match digits (sign text).2 with
  | (whole, '.' :: after) =>
    let fraction := (digits after).1
    if fraction.isEmpty && (whole.isEmpty || !minus.isEmpty) then none
    else some (minus ++ whole ++ '.' :: fraction, (digits after).2)
  | _ => none

def attributeIndex : List Char → Option (List Char × List Char)
  | 'a' :: c :: after => if c.isDigit then some (prepend ['a', c] (digits after)) else none
  | _ => none

/-- A letter, then letters and digits. All are ASCII. -/
def identifier : List Char → Option (List Char × List Char)
  | c :: after =>
    if c.isAlpha then some (c :: after.takeWhile Char.isAlphanum, after.dropWhile Char.isAlphanum)
    else none
  | [] => none

def literally (wanted text : List Char) : Option (List Char × List Char) :=
  if wanted.isPrefixOf text then some (wanted, text.drop wanted.length) else none

/-! ### Nothing is lost -/

theorem digits_append (text : List Char) : (digits text).1 ++ (digits text).2 = text :=
  List.takeWhile_append_dropWhile

theorem sign_append (text : List Char) : (sign text).1 ++ (sign text).2 = text := by
  unfold sign
  split
  · rfl
  · rfl

theorem prepend_append (first text : List Char) :
    (prepend first (digits text)).1 ++ (prepend first (digits text)).2 = first ++ text := by
  simp only [prepend, List.append_assoc, digits_append]

theorem append_of_integer {text lexeme after : List Char}
    (h : integer text = some (lexeme, after)) : lexeme ++ after = text := by
  unfold integer at h
  split at h
  · split at h
    · obtain ⟨rfl, rfl⟩ := Prod.mk.inj (Option.some.inj h)
      rfl
    · simp at h
  · split at h
    · rename_i c rest _
      have cut := prepend_append ['-', c] rest
      rw [Option.some.inj h] at cut
      exact cut
    · simp at h
  · split at h
    · rename_i c rest _ _ _
      have cut := prepend_append [c] rest
      rw [Option.some.inj h] at cut
      exact cut
    · simp at h
  · simp at h

theorem append_of_float {text lexeme after : List Char}
    (h : float text = some (lexeme, after)) : lexeme ++ after = text := by
  unfold float at h
  dsimp only at h
  split at h
  · rename_i front rest cut
    have joined := digits_append (sign text).2
    rw [cut] at joined
    split at h
    · simp at h
    · obtain ⟨rfl, rfl⟩ := Prod.mk.inj (Option.some.inj h)
      rw [List.append_assoc, List.append_assoc, List.cons_append, digits_append, joined,
        sign_append]
  · simp at h

theorem append_of_attributeIndex {text lexeme after : List Char}
    (h : attributeIndex text = some (lexeme, after)) : lexeme ++ after = text := by
  unfold attributeIndex at h
  split at h
  · split at h
    · rename_i c rest _
      have cut := prepend_append ['a', c] rest
      rw [Option.some.inj h] at cut
      exact cut
    · simp at h
  · simp at h

theorem append_of_identifier {text lexeme after : List Char}
    (h : identifier text = some (lexeme, after)) : lexeme ++ after = text := by
  unfold identifier at h
  split at h
  · split at h
    · obtain ⟨rfl, rfl⟩ := Prod.mk.inj (Option.some.inj h)
      rw [List.cons_append, List.takeWhile_append_dropWhile]
    · simp at h
  · simp at h

theorem append_of_literally {wanted text lexeme after : List Char}
    (h : literally wanted text = some (lexeme, after)) : lexeme ++ after = text := by
  unfold literally at h
  split at h
  · rename_i begins
    obtain ⟨rfl, rfl⟩ := Prod.mk.inj (Option.some.inj h)
    exact (List.prefix_iff_eq_append.mp (List.isPrefixOf_iff_prefix.mp begins))
  · simp at h

end ChunkSelector.Lexeme
