import ChunkSelector.Proofs.Token
import ChunkSelector.Reading.Reader

/-!
# String literals

Between its quotes a literal is a row of items: characters that stand for themselves, and backslashes
with a character each. `Reader.attempt_string` says that such a row, with its quotes, is all that is read
as a string, and that a written string reads back whatever follows it. `Reader.attempt_string_line` says
where a line feed ends a literal and where it does not.
-/

namespace ChunkSelector

open Lexeme

namespace Quoted

/-- The letters that name a control character behind a backslash. -/
def controls : List (Char × Char) := [('n', '\n'), ('t', '\t'), ('r', '\r'), ('f', '\x0c')]

theorem escaped_eq (c : Char) : escaped c = (controls.lookup c).getD c := by
  unfold escaped
  split
  · rfl
  · rfl
  · rfl
  · rfl
  · rename_i n t r f
    have other : controls.lookup c = none := by
      simp only [controls, List.lookup_cons, beq_false_of_ne n, beq_false_of_ne t, beq_false_of_ne r, beq_false_of_ne f,
        List.lookup_nil]
    rw [other]
    rfl

inductive Item where
  /-- A character that stands for itself. -/
  | plain (c : Char) (quote : c ≠ '"') (backslash : c ≠ '\\') (feed : c ≠ '\n')
  /-- A backslash and the character behind it. -/
  | escape (c : Char)

namespace Item

def text : Item → List Char
  | plain c .. => [c]
  | escape c => ['\\', c]

/-- A character behind a backslash stands for itself, unless it names a control character. -/
def value : Item → Char
  | plain c .. => c
  | escape c => (controls.lookup c).getD c

end Item

variable {items : List Item} {body : List Char}

theorem isBody_items (items : List Item) : IsBody (items.flatMap Item.text) := by
  induction items with
  | nil => exact .nil
  | cons item items ih =>
    cases item with
    | plain c quote backslash feed => exact .plain quote backslash feed ih
    | escape c => exact .escape c ih

theorem exists_items (form : IsBody body) : ∃ items : List Item, body = items.flatMap Item.text := by
  induction form with
  | nil => exact ⟨[], rfl⟩
  | plain quote backslash feed _ ih =>
    obtain ⟨items, rfl⟩ := ih
    exact ⟨.plain _ quote backslash feed :: items, rfl⟩
  | escape c _ ih =>
    obtain ⟨items, rfl⟩ := ih
    exact ⟨.escape c :: items, rfl⟩

theorem unescape_plain {c : Char} (backslash : c ≠ '\\') (rest : List Char) : unescape (c :: rest) = c :: unescape rest := by
  rw [unescape.eq_def]
  split <;> simp_all

theorem unescape_items (items : List Item) : unescape (items.flatMap Item.text) = items.map Item.value := by
  induction items with
  | nil => rfl
  | cons item items ih =>
    cases item with
    | plain c _ backslash _ => exact (unescape_plain backslash _).trans (congrArg (c :: ·) ih)
    | escape c =>
      rw [List.map_cons, Item.value, ← escaped_eq]
      exact congrArg (escaped c :: ·) ih

/-- A line feed that no backslash escapes ends the line, and nothing is closed before it. -/
theorem bodyOf_feed (items : List Item) (more : List Char) : bodyOf (items.flatMap Item.text ++ '\n' :: more) = none := by
  induction items with
  | nil => rfl
  | cons item items ih =>
    cases item with
    | plain c quote backslash feed =>
      exact (bodyOf_plain quote backslash feed _).trans (congrArg (Option.map _) ih)
    | escape c =>
      show bodyOf ('\\' :: c :: (items.flatMap Item.text ++ '\n' :: more)) = none
      rw [bodyOf, ih, Option.map_none]

theorem feed_mem_items : '\n' ∈ items.flatMap Item.text ↔ Item.escape '\n' ∈ items := by
  constructor
  · intro member
    obtain ⟨item, inside, member⟩ := List.mem_flatMap.mp member
    cases item with
    | plain c _ _ feed => exact absurd (List.mem_singleton.mp member).symm feed
    | escape c =>
      obtain rfl : '\n' = c := by simpa [Item.text] using member
      exact inside
  · intro inside
    exact List.mem_flatMap.mpr ⟨_, inside, by simp [Item.text]⟩

theorem items_or_unclosed (rest : List Char) :
    (∃ (items : List Item) (after : List Char), rest = items.flatMap Item.text ++ '"' :: after) ∨ bodyOf rest = none := by
  cases read : bodyOf rest with
  | none => exact .inr rfl
  | some pair =>
    obtain ⟨whole, form⟩ := bodyOf_eq_some_iff.mp read
    obtain ⟨items, same⟩ := exists_items form
    exact .inl ⟨items, pair.2, same ▸ whole⟩

theorem exists_items_of_escape (s : List Char) :
    ∃ items : List Item, escape s = items.flatMap Item.text ∧ items.map Item.value = s := by
  obtain ⟨items, same⟩ := exists_items (isBody_of_bodyOf (bodyOf_escape s []))
  refine ⟨items, same, ?_⟩
  rw [← unescape_items, ← same, unescape_escape]

end Quoted

namespace Reader

open Quoted

variable {reader : Reader} {items : List Item} {rest after : List Char}

theorem attempt_of_items (opens : reader.cursor.skipBlanks.rest = '"' :: items.flatMap Item.text ++ '"' :: after) :
    (reader.attempt Token.string).1 = .ok (some (.ofList (items.map Item.value))) ∧
    (reader.attempt Token.string).2.cursor = reader.cursor.skipBlanks.past ('"' :: items.flatMap Item.text ++ ['"']) after := by
  rw [attempt, Token.string_of_body opens (isBody_items items), unescape_items]
  exact ⟨rfl, rfl⟩

theorem attempt_of_other (other : reader.cursor.skipBlanks.rest.head? ≠ some '"') :
    (reader.attempt Token.string).1 = .ok none := by
  rw [attempt, Token.string_of_other other]

theorem attempt_of_unclosed (opens : reader.cursor.skipBlanks.rest = '"' :: rest) (unclosed : bodyOf rest = none) :
    (reader.attempt Token.string).1 = .error (.ofUnterminated reader.cursor.skipBlanks.offset) := by
  rw [attempt, Token.string_of_unclosed opens unclosed]

/-- A quote, items and a quote are read as what the items stand for, and the cursor moves behind them. Any other text with a
quote in front is a string that does not end. What is written for a string is read as it, whatever comes next. -/
theorem attempt_string (reader : Reader) :
    (∀ rest, reader.cursor.skipBlanks.rest = '"' :: rest →
      (∀ x next, (reader.attempt Token.string).1 = .ok (some x) ∧ (reader.attempt Token.string).2.cursor = next ↔
        ∃ (items : List Item) (after : List Char), rest = items.flatMap Item.text ++ '"' :: after ∧
          x = .ofList (items.map Item.value) ∧
          next = reader.cursor.skipBlanks.past ('"' :: items.flatMap Item.text ++ ['"']) after) ∧
      ((∀ (items : List Item) (after : List Char), rest ≠ items.flatMap Item.text ++ '"' :: after) →
        (reader.attempt Token.string).1 = .error (.ofUnterminated reader.cursor.skipBlanks.offset))) ∧
    ∀ (x : String) (v : List Char), reader.cursor.skipBlanks.rest = literal x.toList ++ v →
      (reader.attempt Token.string).1 = .ok (some x) ∧
      (reader.attempt Token.string).2.cursor = reader.cursor.skipBlanks.past (literal x.toList) v := by
  refine ⟨fun rest opens => ⟨fun x next => ⟨?_, ?_⟩, fun other => ?_⟩, fun x v written => ?_⟩
  · rintro ⟨value, stop⟩
    rcases items_or_unclosed rest with ⟨items, after, rfl⟩ | unclosed
    · obtain ⟨value', stop'⟩ := attempt_of_items opens
      cases value'.symm.trans value
      exact ⟨items, after, rfl, rfl, stop.symm.trans stop'⟩
    · cases (attempt_of_unclosed opens unclosed).symm.trans value
  · rintro ⟨items, after, rfl, rfl, rfl⟩
    exact attempt_of_items opens
  · rcases items_or_unclosed rest with ⟨items, after, closed⟩ | unclosed
    · exact absurd closed (other items after)
    · exact attempt_of_unclosed opens unclosed
  · obtain ⟨items, body, value⟩ := exists_items_of_escape x.toList
    rw [literal, body] at written ⊢
    have opens : reader.cursor.skipBlanks.rest = '"' :: items.flatMap Item.text ++ '"' :: v := by simpa using written
    have read := attempt_of_items opens
    rwa [value, String.ofList_toList] at read

/-- An escape, a character of two bytes, and a quote that is escaped. -/
theorem attempt_string_of_escapes :
    ((ofText " \"\\n\\\"é\" /".toList).attempt Token.string).1 = .ok (some "\n\"é") ∧
    ((ofText " \"\\n\\\"é\" /".toList).attempt Token.string).2.cursor = ⟨9, " /".toList⟩ ∧
    ((ofText "\"a\\".toList).attempt Token.string).1 = .error (.ofUnterminated 0) := by
  have written : (ofText " \"\\n\\\"é\" /".toList).cursor.skipBlanks.rest = literal "\n\"é".toList ++ " /".toList := by decide
  obtain ⟨value, stop⟩ := (attempt_string (ofText " \"\\n\\\"é\" /".toList)).2 _ _ written
  have cut : (ofText "\"a\\".toList).cursor.skipBlanks.rest = '"' :: ['a', '\\'] := by decide
  refine ⟨value, stop.trans (by decide), ((attempt_string (ofText "\"a\\".toList)).1 _ cut).2 fun items after same => ?_⟩
  have quote : '"' ∈ ['a', '\\'] := same ▸ List.mem_append_right _ List.mem_cons_self
  exact absurd quote (by decide)

/-- A line feed in a literal that is read is one that a backslash escapes. Any other in front of the closing quote leaves the
literal open. -/
theorem attempt_string_line (reader : Reader) :
    (∀ x, (reader.attempt Token.string).1 = .ok (some x) → ∃ items : List Item,
      reader.cursor.skipBlanks.rest = '"' :: items.flatMap Item.text ++ '"' :: (reader.attempt Token.string).2.cursor.rest ∧
      ('\n' ∈ '"' :: items.flatMap Item.text ++ ['"'] ↔ Item.escape '\n' ∈ items)) ∧
    ∀ (items : List Item) (more : List Char), reader.cursor.skipBlanks.rest = '"' :: items.flatMap Item.text ++ '\n' :: more →
      (reader.attempt Token.string).1 = .error (.ofUnterminated reader.cursor.skipBlanks.offset) := by
  refine ⟨fun x value => ?_, fun items more opens => attempt_of_unclosed opens (bodyOf_feed items more)⟩
  by_cases quote : reader.cursor.skipBlanks.rest.head? = some '"'
  · obtain ⟨rest, opens⟩ := List.head?_eq_some_iff.mp quote
    rcases items_or_unclosed rest with ⟨items, after, rfl⟩ | unclosed
    · have behind : (reader.attempt Token.string).2.cursor.rest = after := congrArg Cursor.rest (attempt_of_items opens).2
      refine ⟨items, by rw [behind]; exact opens, ?_⟩
      rw [← feed_mem_items]
      simp
    · cases (attempt_of_unclosed opens unclosed).symm.trans value
  · cases (attempt_of_other quote).symm.trans value

/-- A literal that is read although it goes on in the next line. -/
theorem attempt_string_across_lines : ∃ x text,
    ((ofText "\"\\\n\"".toList).attempt Token.string).1 = .ok (some x) ∧
    (ofText "\"\\\n\"".toList).cursor.skipBlanks.rest =
      text ++ ((ofText "\"\\\n\"".toList).attempt Token.string).2.cursor.rest ∧
    '\n' ∈ text :=
  ⟨"\n", "\"\\\n\"".toList, by rfl, by rfl, by decide⟩

theorem attempt_string_line_of_feeds :
    (∃ items : List Item, "\"\\\n\"".toList = '"' :: items.flatMap Item.text ++ ['"'] ∧ Item.escape '\n' ∈ items) ∧
    ((ofText "\"\\\n\n\"".toList).attempt Token.string).1 = .error (.ofUnterminated 0) := by
  have value : ((ofText "\"\\\n\"".toList).attempt Token.string).1 = .ok (some "\n") := by rfl
  obtain ⟨items, whole, iff⟩ := (attempt_string_line (ofText "\"\\\n\"".toList)).1 "\n" value
  have text : "\"\\\n\"".toList = '"' :: items.flatMap Item.text ++ ['"'] := whole
  have inside : '\n' ∈ '"' :: items.flatMap Item.text ++ ['"'] := text ▸ by decide
  exact ⟨⟨items, text, iff.mp inside⟩,
    (attempt_string_line (ofText "\"\\\n\n\"".toList)).2 [.escape '\n'] ['"'] (by decide)⟩

end Reader

end ChunkSelector
