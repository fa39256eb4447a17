import ChunkSelector.Text.Blank

/-!
# Cursors

A `Cursor` stands in a text: it holds the rest of the text and the offset where the rest
begins. Offsets count the bytes of UTF-8.
-/

namespace ChunkSelector

/-- The number of bytes of a text in UTF-8. -/
def utf8Length : List Char → Nat
  | [] => 0
  | c :: rest => c.utf8Size + utf8Length rest

/-- Cuts a text at an offset: what begins before it, and the rest. -/
def splitAtOffset : List Char → Nat → List Char × List Char
  | [], _ => ([], [])
  | c :: rest, 0 => ([], c :: rest)
  | c :: rest, offset + 1 =>
    let (before, after) := splitAtOffset rest (offset + 1 - c.utf8Size)
    (c :: before, after)

structure Cursor where
  offset : Nat
  rest : List Char
  deriving DecidableEq

namespace Cursor

def start (text : List Char) : Cursor := ⟨0, text⟩

/-- Past a piece at the start of the rest, with what follows it. -/
def past (c : Cursor) (piece after : List Char) : Cursor := ⟨c.offset + utf8Length piece, after⟩

def skipBlanks (c : Cursor) : Cursor := c.past (c.rest.takeWhile isBlank) (c.rest.dropWhile isBlank)

end Cursor

theorem utf8Length_append (a b : List Char) :
    utf8Length (a ++ b) = utf8Length a + utf8Length b := by
  induction a with
  | nil => simp [utf8Length]
  | cons c a ih => simp only [List.cons_append, utf8Length, ih]; omega

theorem splitAtOffset_append (a b : List Char) :
    splitAtOffset (a ++ b) (utf8Length a) = (a, b) := by
  induction a with
  | nil => cases b <;> simp [utf8Length, splitAtOffset]
  | cons c a ih =>
    have positive : 0 < c.utf8Size := Char.utf8Size_pos c
    have size : utf8Length (c :: a) = (c.utf8Size - 1 + utf8Length a) + 1 := by
      simp [utf8Length]; omega
    rw [List.cons_append, size, splitAtOffset,
      show c.utf8Size - 1 + utf8Length a + 1 - c.utf8Size = utf8Length a by omega, ih]

end ChunkSelector
