/-!
# Quoted strings

A string stands between double quotes. A backslash escapes the character after it:
`n`, `t`, `r` and `f` then name a control character, and any other one stands for itself.
`bodyOf` finds the closing quote, `unescape` resolves a body, and `escape` writes one:
`bodyOf_escape` and `unescape_escape` show that a written string reads back.
-/

namespace ChunkSelector.Quoted

/-- The character that an escaped character stands for. -/
def escaped : Char → Char
  | 'n' => '\n'
  | 't' => '\t'
  | 'r' => '\r'
  | 'f' => '\x0c'
  | c => c

/-- Cuts the text after an opening quote into the raw body and what follows the closing quote.
There is none where the line or the text ends first; an escaped line feed does not end the line. -/
def bodyOf : List Char → Option (List Char × List Char)
  | [] => none
  | '\\' :: [] => none
  | '\\' :: c :: rest => (bodyOf rest).map fun (body, after) => ('\\' :: c :: body, after)
  | '"' :: rest => some ([], rest)
  | '\n' :: _ => none
  | c :: rest => (bodyOf rest).map fun (body, after) => (c :: body, after)

/-- The string that a raw body stands for. -/
def unescape : List Char → List Char
  | '\\' :: c :: rest => escaped c :: unescape rest
  | c :: rest => c :: unescape rest
  | [] => []

/-- One character of a string as it is written between quotes. -/
def escapeChar : Char → List Char
  | '"' => ['\\', '"']
  | '\\' => ['\\', '\\']
  | '\n' => ['\\', 'n']
  | '\t' => ['\\', 't']
  | '\r' => ['\\', 'r']
  | '\x0c' => ['\\', 'f']
  | c => [c]

def escape (s : List Char) : List Char := s.flatMap escapeChar

def literal (s : List Char) : List Char := '"' :: escape s ++ ['"']

/-! ### Writing and reading back -/

theorem bodyOf_plain {c : Char} (quote : c ≠ '"') (backslash : c ≠ '\\') (feed : c ≠ '\n')
    (rest : List Char) :
    bodyOf (c :: rest) = (bodyOf rest).map fun (body, after) => (c :: body, after) := by
  rw [bodyOf.eq_def]
  split <;> simp_all

theorem bodyOf_escapeChar (c : Char) (rest : List Char) :
    bodyOf (escapeChar c ++ rest) =
      (bodyOf rest).map fun (body, after) => (escapeChar c ++ body, after) := by
  unfold escapeChar
  split <;> try rfl
  exact bodyOf_plain (by assumption) (by assumption) (by assumption) rest

theorem bodyOf_escape (s after : List Char) :
    bodyOf (escape s ++ '"' :: after) = some (escape s, after) := by
  induction s with
  | nil => rfl
  | cons c s ih =>
    rw [escape, List.flatMap_cons, List.append_assoc, bodyOf_escapeChar]
    rw [escape] at ih
    simp [ih]

theorem unescape_escapeChar (c : Char) (rest : List Char) :
    unescape (escapeChar c ++ rest) = c :: unescape rest := by
  unfold escapeChar
  split <;> try rfl
  rw [List.singleton_append, unescape.eq_def]
  split <;> simp_all

theorem unescape_escape (s : List Char) : unescape (escape s) = s := by
  induction s with
  | nil => rfl
  | cons c s ih =>
    rw [escape, List.flatMap_cons, unescape_escapeChar]
    rw [escape] at ih
    rw [ih]

/-- Nothing is lost between the quotes. -/
theorem append_of_bodyOf {text body after : List Char} (h : bodyOf text = some (body, after)) :
    text = body ++ '"' :: after := by
  fun_induction bodyOf text generalizing body with
  | case1 => simp at h
  | case2 => simp at h
  | case3 c rest ih =>
    obtain ⟨⟨body, after⟩, read, same⟩ := Option.map_eq_some_iff.mp h
    simp only [Prod.mk.injEq] at same
    obtain ⟨rfl, rfl⟩ := same
    rw [ih read]
    rfl
  | case4 rest =>
    simp only [Option.some.injEq, Prod.mk.injEq] at h
    obtain ⟨rfl, rfl⟩ := h
    rfl
  | case5 => simp at h
  | case6 c rest _ _ _ _ ih =>
    obtain ⟨⟨body, after⟩, read, same⟩ := Option.map_eq_some_iff.mp h
    simp only [Prod.mk.injEq] at same
    obtain ⟨rfl, rfl⟩ := same
    rw [ih read]
    rfl

end ChunkSelector.Quoted
