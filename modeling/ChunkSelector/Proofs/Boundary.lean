import ChunkSelector.Proofs.Overlong

/-!
# Character boundaries

Offsets count bytes, and a text can be cut only between two of its characters. `Selector.parse_safe` says that
no other cut is made, neither while a text is read nor for the error of a text that is refused, and that an
error tells what stands at its offset.
-/

namespace ChunkSelector

/-- The offset lies between two characters, or at an end of the text. -/
def Boundary (text : List Char) (n : Nat) : Prop := ∃ before after, text = before ++ after ∧ utf8Length before = n

theorem utf8Length_toList (text : String) : utf8Length text.toList = text.utf8ByteSize := by
  have list : ∀ cs : List Char, utf8Length cs = (String.ofList cs).utf8ByteSize := by
    intro cs
    induction cs with
    | nil => rfl
    | cons c cs ih =>
      rw [utf8Length, ih, ← List.singleton_append, String.ofList_append, String.utf8ByteSize_append,
        ← String.singleton_eq_ofList, String.utf8ByteSize_singleton]
  rw [list, String.ofList_toList]

theorem Boundary.isValid {text : String} {n : Nat} (h : Boundary text.toList n) : String.Pos.Raw.IsValid text ⟨n⟩ := by
  obtain ⟨before, after, split, length⟩ := h
  refine String.Pos.Raw.isValid_iff_exists_append.mpr ⟨.ofList before, .ofList after, ?_, ?_⟩
  · rw [← String.ofList_append, ← split, String.ofList_toList]
  · rw [← length, ← String.toList_ofList (l := before), utf8Length_toList]
    simp [String.rawEndPos]

namespace Cursor

variable {c : Cursor} {text : List Char}

/-- The offsets at which a rule for one token cuts the text: in front of the blanks and behind them, behind a lexeme, and
behind the first character where it is a quote, the letter of an attribute or a zero. -/
inductive Slices (c : Cursor) : Nat → Prop where
  | start : Slices c c.offset
  | visible : Slices c c.skipBlanks.offset
  | second {ch : Char} {after : List Char} (known : ch ∈ ['"', 'a', '0']) (begins : c.skipBlanks.rest = ch :: after) :
      Slices c (c.skipBlanks.offset + 1)
  | behind {cut : List Char → Option (List Char × List Char)}
      (known : cut ∈ [Lexeme.integer, Lexeme.float, Lexeme.attributeIndex, Lexeme.identifier]) {lexeme after : List Char}
      (read : cut c.skipBlanks.rest = some (lexeme, after)) : Slices c (c.skipBlanks.past lexeme after).offset

theorem start_in (text : List Char) : (start text).In text := ⟨[], rfl, rfl⟩

theorem In.boundary (h : c.In text) : Boundary text c.offset := by
  obtain ⟨before, split, length⟩ := h
  exact ⟨before, c.rest, split, length⟩

theorem In.past (h : c.In text) {piece after : List Char} (same : c.rest = piece ++ after) : (c.past piece after).In text := by
  obtain ⟨before, split, length⟩ := h
  refine ⟨before ++ piece, ?_, ?_⟩
  · rw [split, same, List.append_assoc]
    rfl
  · rw [utf8Length_append, length]
    rfl

theorem In.skipBlanks (h : c.In text) : c.skipBlanks.In text := h.past List.takeWhile_append_dropWhile.symm

theorem append_of_cut {cut : List Char → Option (List Char × List Char)} {lexeme after : List Char}
    (known : cut ∈ [Lexeme.integer, Lexeme.float, Lexeme.attributeIndex, Lexeme.identifier])
    (read : cut text = some (lexeme, after)) : lexeme ++ after = text := by
  simp only [List.mem_cons, List.not_mem_nil, or_false] at known
  rcases known with rfl | rfl | rfl | rfl
  · exact Lexeme.append_of_integer read
  · exact Lexeme.append_of_float read
  · exact Lexeme.append_of_attributeIndex read
  · exact Lexeme.append_of_identifier read

theorem Slices.boundary {n : Nat} (slices : c.Slices n) (h : c.In text) : Boundary text n := by
  cases slices with
  | start => exact h.boundary
  | visible => exact h.skipBlanks.boundary
  | @second ch after known begins =>
    have one : utf8Length [ch] = 1 := by
      simp only [List.mem_cons, List.not_mem_nil, or_false] at known
      rcases known with rfl | rfl | rfl <;> rfl
    have cut : c.skipBlanks.rest = [ch] ++ after := begins
    have behind := (h.skipBlanks.past cut).boundary
    rwa [Cursor.past, one] at behind
  | behind known read => exact (h.skipBlanks.past (append_of_cut known read).symm).boundary

end Cursor

namespace Rule

/-- While the rule reads at one cursor, another rule reads at the other: a part of it, which may be one for a token. -/
inductive ReadsAt : {α : Type} → Rule α → Cursor → Cursor → Prop where
  | here {α : Type} {rule : Rule α} {c : Cursor} : ReadsAt rule c c
  | first {α β : Type} {rule : Rule α} {next : α → Rule β} {c m : Cursor} (reads : ReadsAt rule c m) :
      ReadsAt (rule >>= next) c m
  | rest {α β : Type} {rule : Rule α} {phrase : Phrase α} {next : α → Rule β} {c d m : Cursor} {v : α}
      (follows : Follows rule phrase) (matched : (rule c).verdict = .matched v d) (reads : ReadsAt (next v) d m) :
      ReadsAt (rule >>= next) c m
  | left {α : Type} {rule other : Rule α} {c m : Cursor} (reads : ReadsAt rule c m) : ReadsAt (rule <|> other) c m
  | right {α : Type} {rule other : Rule α} {c m : Cursor} (failed : (rule c).verdict = .noMatch) (reads : ReadsAt other c m) :
      ReadsAt (rule <|> other) c m
  | item {α : Type} {item : Rule α} {c m : Cursor} (reads : ReadsAt item c m) : ReadsAt item.many c m
  | items {α : Type} {item : Rule α} {phrase : Phrase α} {c d m : Cursor} {v : α} (follows : Follows item phrase)
      (matched : (item c).verdict = .matched v d) (reads : ReadsAt item.many d m) : ReadsAt item.many c m

/-- Reading does not leave the text. -/
theorem ReadsAt.in_text {α : Type} {rule : Rule α} {c m : Cursor} {text : List Char} (reads : ReadsAt rule c m)
    (h : c.In text) : m.In text := by
  induction reads with
  | here => exact h
  | first _ ih => exact ih h
  | rest follows matched _ ih =>
    obtain ⟨ts, passes, -⟩ := follows.sound matched
    exact ih (passes.inside h)
  | left _ ih => exact ih h
  | right _ _ ih => exact ih h
  | item _ ih => exact ih h
  | items follows matched _ ih =>
    obtain ⟨ts, passes, -⟩ := follows.sound matched
    exact ih (passes.inside h)

end Rule

/-! ### What an error says -/

theorem leadingPiece_eq_none_iff {text : List Char} : leadingPiece text = none ↔ text = [] := by
  cases text <;> simp [leadingPiece]

theorem leadingPiece_spec {text piece : List Char} (h : leadingPiece text = some piece) :
    piece ≠ [] ∧ piece <+: text ∧ piece.length ≤ quotedWordLength := by
  cases text with
  | nil => cases h
  | cons c rest =>
    obtain rfl := Option.some.inj h
    split
    · rename_i word
      refine ⟨?_, (List.take_prefix _ _).trans (List.takeWhile_prefix _), List.length_take_le _ _⟩
      rw [List.takeWhile_cons, if_pos word]
      exact List.cons_ne_nil _ _
    · exact ⟨List.cons_ne_nil _ _, ⟨rest, rfl⟩, Nat.le_add_left 1 31⟩

namespace SyntaxError

variable {error : SyntaxError} {after : List Char}

/-- What an error says of the text behind its offset. -/
def Fits (error : SyntaxError) (after : List Char) : Prop :=
  match error.kind with
  | .unterminatedString => after.head? = some '"' ∧ error.found = none
  | .invalidNumber number => number.toList <+: after ∧ error.found = none
  | .emptySection _ | .expected _ => (error.found = none ↔ after = []) ∧
      ∀ piece ∈ error.found, piece ≠ "" ∧ piece.toList <+: after ∧ piece.length ≤ quotedWordLength

/-- The error stands in the text, in front of what it is about. -/
def StandsIn (error : SyntaxError) (text : List Char) : Prop :=
  ∃ before after, text = before ++ after ∧ utf8Length before = error.offset ∧ error.Fits after

theorem fits_ofNumber (number after : List Char) (offset : Nat) : (ofNumber number offset).Fits (number ++ after) :=
  ⟨⟨after, by rw [String.toList_ofList]⟩, rfl⟩

theorem quotes_leadingPiece {found : Option String} (same : found = (leadingPiece after).map .ofList) :
    (found = none ↔ after = []) ∧
      ∀ piece ∈ found, piece ≠ "" ∧ piece.toList <+: after ∧ piece.length ≤ quotedWordLength := by
  rw [same, Option.map_eq_none_iff, leadingPiece_eq_none_iff]
  refine ⟨Iff.rfl, fun piece member => ?_⟩
  obtain ⟨chars, quoted, rfl⟩ := Option.map_eq_some_iff.mp member
  obtain ⟨present, begins, short⟩ := leadingPiece_spec quoted
  refine ⟨fun empty => present ?_, by rwa [String.toList_ofList], by rwa [String.length_ofList]⟩
  rw [← String.toList_ofList (l := chars), empty, String.toList_empty]

theorem kindBetween_cases (before after : List Char) (expected : List Expected) :
    (∃ c, Trail.kindBetween before after expected = .emptySection c) ∨
      Trail.kindBetween before after expected = .expected expected := by
  unfold Trail.kindBetween
  split
  · split
    · exact .inl ⟨_, rfl⟩
    · exact .inr rfl
  · exact .inr rfl

/-- An error about the shape of the text quotes what comes next. -/
theorem fits_kindBetween (offset : Nat) (before after : List Char) (expected : List Expected) :
    Fits ⟨offset, Trail.kindBetween before after expected, (leadingPiece after).map .ofList⟩ after := by
  rcases kindBetween_cases before after expected with ⟨c, kind⟩ | kind
  · rw [kind]
    exact quotes_leadingPiece rfl
  · rw [kind]
    exact quotes_leadingPiece rfl

end SyntaxError

theorem Faulty.fits {c : Cursor} {error : SyntaxError} (fault : Faulty c error) : error.Fits c.rest := by
  cases fault with
  | number same form =>
    rw [same]
    exact SyntaxError.fits_ofNumber _ _ _
  | unterminated same =>
    rw [same]
    exact ⟨rfl, rfl⟩

theorem Trail.diagnose_standsIn {trail : Trail} {text : List Char} (border : Boundary text trail.furthest)
    (cuts : ∀ token ∈ trail.overlong, ∃ before after, token.Cuts text before after) :
    (trail.diagnose text).StandsIn text := by
  unfold diagnose
  split
  · rename_i token last
    obtain ⟨before, after, cuts⟩ := cuts token (List.mem_of_getLast? (Option.filter_eq_some_iff.mp last).1)
    exact ⟨before, token.text ++ after, cuts.whole, cuts.start, SyntaxError.fits_ofNumber _ _ _⟩
  · obtain ⟨before, after, split, length⟩ := border
    rw [← length, split, splitAtOffset_append]
    exact ⟨before, after, rfl, rfl, SyntaxError.fits_kindBetween _ _ _ _⟩

namespace Rule

variable {α : Type} {rule : Rule α} {phrase : Phrase α}

theorem toEnd_cuts (follows : Follows rule phrase) {text : List Char} :
    ∀ token ∈ (rule.toEnd (.start text)).trail.overlong, ∃ before after, token.Cuts text before after :=
  fun token member => Overlong.exists_cuts (toEnd_recalls follows _ token member).2

theorem toEnd_boundary (follows : Follows rule phrase) {text : List Char}
    (failed : (rule.toEnd (.start text)).verdict = .noMatch) : Boundary text (rule.toEnd (.start text)).trail.furthest := by
  obtain ⟨before, after, split, length, -⟩ := toEnd_border follows failed
  exact ⟨before, after, split, length⟩

theorem readAll_standsIn (follows : Follows rule phrase) {text : String} {error : SyntaxError}
    (h : rule.readAll text = .error error) : error.StandsIn text.toList := by
  rw [readAll_eq, Step.result] at h
  split at h
  · cases h
  · rename_i failed
    obtain rfl := Except.error.inj h
    exact Trail.diagnose_standsIn (toEnd_boundary follows failed) (toEnd_cuts follows)
  · rename_i d invalid
    obtain rfl := Except.error.inj h
    obtain ⟨e, m, ⟨ts, passes, -⟩, fault⟩ := follows.faulty (toEnd_invalid invalid)
    obtain ⟨before, split, length⟩ := (passes.inside (Cursor.start_in _)).skipBlanks
    exact ⟨before, _, split, length.trans fault.offset.symm, fault.fits⟩

end Rule

theorem Overlong.Cuts.boundaries {token : Overlong} {text before after : List Char} (cuts : token.Cuts text before after) :
    Boundary text token.start ∧ Boundary text token.stop := by
  refine ⟨⟨before, token.text ++ after, cuts.whole, cuts.start⟩, ⟨before ++ token.text, after, ?_, ?_⟩⟩
  · rw [cuts.whole, List.append_assoc]
  · rw [utf8Length_append, cuts.stop]

namespace Selector

/-- Wherever the text is cut, it is cut between two characters: while it is read, and where it is refused at the furthest
offset and around the overlong tokens. The error stands there as well, in front of what it is about. -/
theorem parse_safe (text : String) :
    (∀ c n, Grammar.selector.toEnd.ReadsAt (.start text.toList) c → c.Slices n → String.Pos.Raw.IsValid text ⟨n⟩) ∧
    ((Grammar.selector.toEnd (.start text.toList)).verdict = .noMatch →
      String.Pos.Raw.IsValid text ⟨(Grammar.selector.toEnd (.start text.toList)).trail.furthest⟩ ∧
      ∀ token ∈ (Grammar.selector.toEnd (.start text.toList)).trail.overlong,
        String.Pos.Raw.IsValid text ⟨token.start⟩ ∧ String.Pos.Raw.IsValid text ⟨token.stop⟩) ∧
    ∀ error, parse text = .error error → String.Pos.Raw.IsValid text ⟨error.offset⟩ ∧ error.StandsIn text.toList := by
  have follows := Grammar.selector_follows
  refine ⟨fun c n reads slices => ?_, fun failed => ⟨?_, fun token member => ?_⟩, fun error refused => ?_⟩
  · exact (slices.boundary (reads.in_text (Cursor.start_in _))).isValid
  · exact (Rule.toEnd_boundary follows failed).isValid
  · obtain ⟨before, after, cuts⟩ := Rule.toEnd_cuts follows token member
    exact ⟨cuts.boundaries.1.isValid, cuts.boundaries.2.isValid⟩
  · obtain ⟨before, after, split, length, fits⟩ := Rule.readAll_standsIn follows refused
    exact ⟨Boundary.isValid ⟨before, after, split, length⟩, before, after, split, length, fits⟩

/-- Behind a blank of three bytes, at the end of a selector and at a string that is left open. -/
theorem parse_safe_of_wide_blanks : String.Pos.Raw.IsValid "\u30000" ⟨4⟩ ∧
    parse "0/\u3000f(\"é" = .error (.ofUnterminated 7) ∧ String.Pos.Raw.IsValid "0/\u3000f(\"é" ⟨7⟩ := by
  have matched : (Grammar.selector (.start "\u30000".toList)).verdict = .matched [⟨[.index 0], none, none, none⟩] ⟨4, []⟩ := by rfl
  have refused : parse "0/\u3000f(\"é" = .error (.ofUnterminated 7) := by rfl
  exact ⟨(parse_safe "\u30000").1 _ _ (.rest Grammar.selector_follows matched .here) .start, refused,
    ((parse_safe "0/\u3000f(\"é").2.2 _ refused).1⟩

end Selector

end ChunkSelector
