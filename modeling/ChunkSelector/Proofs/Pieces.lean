import ChunkSelector.Proofs.Expectation
import ChunkSelector.Proofs.Vocabulary
import ChunkSelector.Proofs.Writing
import Mathlib.Data.List.Forall2

/-!
# Pieces of a text

`pieces` cuts a text at a separator wherever that stands outside strings, without any reading. The texts of
a list are those whose pieces are texts of its items (`written_list_iff`), so a selector is accepted exactly
when its pieces are (`Selector.parse_pieces`).
-/

namespace ChunkSelector

open Lexeme

/-- Where a character stands: outside strings, in a string, or behind a backslash in a string. -/
inductive Quoting where
  | outside
  | inside
  | escaped
  deriving DecidableEq

/-- Where the next character stands. -/
def Quoting.next : Quoting → Char → Quoting
  | outside, c => if c = '"' then inside else outside
  | inside, c => if c = '"' then outside else if c = '\\' then escaped else inside
  | escaped, _ => inside

def cutAt (separator : Char) : Quoting → List Char → List (List Char)
  | _, [] => [[]]
  | quoting, c :: rest =>
    if quoting = .outside ∧ c = separator then [] :: cutAt separator .outside rest
    else (cutAt separator (quoting.next c) rest).modifyHead (c :: ·)

/-- The pieces of a text between the separators outside its strings. -/
def pieces (separator : Char) (text : List Char) : List (List Char) := cutAt separator .outside text

variable {separator : Char} {quoting : Quoting} {text a b p : List Char}

theorem cutAt_ne_nil : cutAt separator quoting text ≠ [] := by
  induction text generalizing quoting with
  | nil => simp [cutAt]
  | cons c text ih =>
    unfold cutAt
    split
    · exact List.cons_ne_nil _ _
    · have some : cutAt separator (quoting.next c) text ≠ [] := ih
      obtain ⟨first, more, same⟩ := List.exists_cons_of_ne_nil some
      rw [same]
      exact List.cons_ne_nil _ _

/-- No character is lost, and none but separators between two pieces. -/
theorem intercalate_cutAt : [separator].intercalate (cutAt separator quoting text) = text := by
  induction text generalizing quoting with
  | nil => simp [cutAt]
  | cons c text ih =>
    unfold cutAt
    split
    · rename_i here
      have some : cutAt separator .outside text ≠ [] := cutAt_ne_nil
      obtain ⟨first, more, same⟩ := List.exists_cons_of_ne_nil some
      rw [same, List.intercalate_cons_cons, ← same, ih, here.2]
      rfl
    · rename_i away
      have inner : [separator].intercalate (cutAt separator (quoting.next c) text) = text := ih
      cases cut : cutAt separator (quoting.next c) text with
      | nil => exact absurd cut cutAt_ne_nil
      | cons first more =>
        rw [cut] at inner
        cases more with
        | nil => simpa using inner
        | cons second more =>
          rw [List.intercalate_cons_cons] at inner
          rw [List.modifyHead_cons, List.intercalate_cons_cons, ← inner]
          rfl

/-! ### What is not cut -/

/-- A text without a separator outside its strings, all of which are closed. -/
def Uncut (separator : Char) (p : List Char) : Prop :=
  ∀ rest, cutAt separator .outside (p ++ rest) = (cutAt separator .outside rest).modifyHead (p ++ ·)

theorem uncut_nil : Uncut separator [] := by
  intro rest
  exact (congrFun List.modifyHead_id _).symm

theorem Uncut.append (left : Uncut separator a) (right : Uncut separator b) : Uncut separator (a ++ b) := by
  intro rest
  rw [List.append_assoc, left, right, List.modifyHead_modifyHead]
  congr 1
  funext piece
  exact (List.append_assoc a b piece).symm

theorem uncut_of_plain (plain : ∀ c ∈ p, c ≠ '"' ∧ c ≠ separator) : Uncut separator p := by
  induction p with
  | nil => exact uncut_nil
  | cons c p ih =>
    obtain ⟨quote, other⟩ := plain c (by simp)
    have rest := ih fun d member => plain d (by simp [member])
    have first : Uncut separator [c] := by
      intro rest
      rw [List.singleton_append, cutAt, if_neg (fun both => other both.2), Quoting.next, if_neg quote]
      rfl
    exact first.append rest

theorem cutAt_body (form : IsBody p) (rest : List Char) :
    cutAt separator .inside (p ++ '"' :: rest) = (cutAt separator .outside rest).modifyHead (p ++ '"' :: ·) := by
  induction form with
  | nil => rfl
  | @plain c body quote backslash feed _ ih =>
    rw [List.cons_append, cutAt, if_neg (by simp), Quoting.next, if_neg quote, if_neg backslash, ih, List.modifyHead_modifyHead]
    rfl
  | @escape c body _ ih =>
    rw [List.cons_append, List.cons_append, cutAt, if_neg (by simp), Quoting.next, if_neg (by decide), if_pos rfl, cutAt,
      if_neg (by simp), Quoting.next, ih, List.modifyHead_modifyHead, List.modifyHead_modifyHead]
    rfl

theorem uncut_string (form : IsBody p) (other : separator ≠ '"') : Uncut separator ('"' :: p ++ ['"']) := by
  intro rest
  rw [List.append_assoc, List.cons_append, List.singleton_append, cutAt, if_neg (fun both => other both.2.symm), Quoting.next,
    if_pos rfl, cutAt_body form, List.modifyHead_modifyHead]
  congr 1
  funext piece
  simp

theorem Uncut.pieces_eq (h : Uncut separator p) : pieces separator p = [p] := by
  have whole := h []
  rw [List.append_nil] at whole
  rw [pieces, whole]
  simp [cutAt]

theorem Uncut.pieces_cons (h : Uncut separator p) (rest : List Char) :
    pieces separator (p ++ separator :: rest) = p :: pieces separator rest := by
  rw [pieces, h, cutAt, if_pos ⟨rfl, rfl⟩]
  simp [pieces]

/-! ### What is written -/

def separators : List Char := ['/', '|', ';', ',']

theorem mem_separators {c : Char} (h : isSeparator c = true) : c ∈ separators := by
  simpa [isSeparator, separators, or_assoc] using h

theorem isBlank_of_separator {c : Char} (h : isSeparator c = true) : isBlank c = false := by
  have all : ∀ c ∈ separators, isBlank c = false := by decide
  exact all c (mem_separators h)

theorem goesOn_of_separator {c : Char} (h : isSeparator c = true) : goesOn c = false := by
  have all : ∀ c ∈ separators, goesOn c = false := by decide
  exact all c (mem_separators h)

theorem opensToken_of_separator {c : Char} (h : isSeparator c = true) : opensToken c = false := by
  have all : ∀ c ∈ separators, opensToken c = false := by decide
  exact all c (mem_separators h)

theorem symbol_of_separator : ∀ w ∈ Terminal.symbols, ∀ c ∈ w.toList, isSeparator c = true → w.toList = [c] := by
  decide

/-- A lexeme is a string, or has no separator in it, apart from the symbol. -/
theorem Terminal.IsLexeme.plain_of_ne {t : Terminal} {w : String} (h : t.IsLexeme) (single : w.toList = [separator])
    (separates : isSeparator separator = true) (other : t.kind ≠ .symbol w) :
    (∃ body, IsBody body ∧ t.text = '"' :: body ++ ['"']) ∨ separator ∉ t.text := by
  rcases h.shape with string | ⟨c, more, same, -, -, start, goes⟩
  · exact .inl string
  refine .inr fun member => ?_
  rcases start with ⟨w', kind⟩ | opens
  · obtain ⟨_, text⟩ := t
    cases kind
    obtain ⟨known, _, ⟨⟩, rfl⟩ := h
    have whole := symbol_of_separator w' known separator member separates
    exact other (congrArg Expected.symbol (String.toList_injective (whole.trans single.symm)))
  · rw [same] at member
    rcases List.mem_cons.mp member with rfl | behind
    · rw [opensToken_of_separator separates] at opens
      cases opens
    · have inside := goes separator behind
      rw [goesOn_of_separator separates] at inside
      cases inside

section written

variable {w : String} {t : Terminal} {ts us : List Terminal} {tail u r : List Char}

theorem Terminal.IsLexeme.uncut (h : t.IsLexeme) (single : w.toList = [separator]) (separates : isSeparator separator = true)
    (other : t.kind ≠ .symbol w) : Uncut separator t.text := by
  have quote : separator ≠ '"' := by
    rintro rfl
    exact absurd separates (by decide)
  rcases h.plain_or_string with plain | ⟨body, form, same⟩
  · refine uncut_of_plain fun c member => ⟨(plain c member).1, ?_⟩
    rintro rfl
    rcases h.plain_of_ne single separates other with ⟨body, -, same⟩ | apart
    · exact (plain '"' (by simp [same])).1 rfl
    · exact apart member
  · rw [same]
    exact uncut_string form quote

theorem Blank.uncut (blank : Blank p) (separates : isSeparator separator = true) : Uncut separator p := by
  refine uncut_of_plain fun c member => ⟨?_, ?_⟩
  · rintro rfl
    exact absurd (blank '"' member) (by decide)
  · rintro rfl
    have shown := isBlank_of_separator separates
    rw [blank c member] at shown
    cases shown

theorem Written.uncut (h : Written text ts) (lexemes : ∀ t ∈ ts, t.IsLexeme) (single : w.toList = [separator])
    (separates : isSeparator separator = true) (other : ∀ t ∈ ts, t.kind ≠ .symbol w) : Uncut separator text := by
  obtain ⟨tail, spelled, blank⟩ := h
  induction spelled with
  | nil text => exact blank.uncut separates
  | @cons blanks t rest ts after space _ _ ih =>
    have lexeme := (lexemes t (by simp)).uncut single separates (other t (by simp))
    exact ((space.uncut separates).append lexeme).append
      (ih (fun u member => lexemes u (by simp [member])) (fun u member => other u (by simp [member])) blank)

/-- At a symbol the text can be parted. -/
theorem Written.part {back : List Terminal} (h : Written text (ts ++ ⟨.symbol w, [separator]⟩ :: back)) :
    ∃ u r, text = u ++ separator :: r ∧ Written u ts ∧ Written r back := by
  obtain ⟨tail, spelled, blank⟩ := h
  obtain ⟨mid, left, right⟩ := spelled.split
  generalize symbol : (⟨.symbol w, [separator]⟩ : Terminal) = t at right
  cases right with
  | @cons blanks t rest ts after space _ more =>
    subst symbol
    rw [List.append_assoc] at left
    obtain ⟨u, rfl, front⟩ := left.exchange (y := []) (by simp [Stops])
    rw [List.append_nil, List.append_nil] at front
    exact ⟨u, rest, by simp, ⟨blanks, front, space⟩, tail, more, blank⟩

theorem Written.link (left : Written u ts) (right : Written r us) (stop : goesOn separator = false) :
    Written (u ++ separator :: r) (ts ++ ⟨.symbol w, [separator]⟩ :: us) := by
  obtain ⟨mid, spelled, blank⟩ := left
  obtain ⟨tail, behind, finish⟩ := right
  rw [← List.append_nil mid] at spelled
  have stops : Stops (separator :: r) := by simpa [Stops] using stop
  obtain ⟨_, rfl, before⟩ := spelled.exchange stops
  rw [List.append_nil]
  have full : Terminal.EndsBefore ⟨.symbol w, [separator]⟩ r := trivial
  have bar := Spells.cons blank full behind
  rw [List.append_assoc] at bar
  exact ⟨tail, before.append bar, finish⟩

/-! ### Parts -/

theorem pieces_of_written {parts : List (List Terminal)} (some : parts ≠ [])
    (uncut : ∀ part ∈ parts, ∀ piece, Written piece part → Uncut separator piece)
    (written : Written text ([⟨.symbol w, [separator]⟩].intercalate parts)) :
    List.Forall₂ Written (pieces separator text) parts := by
  induction parts generalizing text with
  | nil => exact absurd rfl some
  | cons first more ih =>
    cases more with
    | nil =>
      rw [List.intercalate_singleton] at written
      rw [(uncut first (by simp) text written).pieces_eq]
      exact .cons written .nil
    | cons second more =>
      rw [List.intercalate_cons_cons, List.append_assoc, List.singleton_append] at written
      obtain ⟨u, r, rfl, left, right⟩ := written.part
      rw [(uncut first (by simp) u left).pieces_cons]
      exact .cons left (ih (List.cons_ne_nil _ _) (fun part member => uncut part (by simp [member])) right)

theorem written_of_pieces {cuts : List (List Char)} {parts : List (List Terminal)} (separates : isSeparator separator = true)
    (some : cuts ≠ []) (each : List.Forall₂ Written cuts parts) :
    Written ([separator].intercalate cuts) ([⟨.symbol w, [separator]⟩].intercalate parts) := by
  induction each with
  | nil => exact absurd rfl some
  | @cons piece part cuts parts here more ih =>
    cases more with
    | nil =>
      rw [List.intercalate_singleton, List.intercalate_singleton]
      exact here
    | cons there later =>
      have linked := here.link (w := w) (ih (List.cons_ne_nil _ _)) (goesOn_of_separator separates)
      rw [List.intercalate_cons_cons, List.intercalate_cons_cons, List.append_assoc, List.append_assoc]
      exact linked

/-- With a symbol between parts that do not have it, a text is cut into the texts of the parts. -/
theorem written_intercalate_iff {parts : List (List Terminal)} (separates : isSeparator separator = true) (some : parts ≠ [])
    (uncut : ∀ part ∈ parts, ∀ piece, Written piece part → Uncut separator piece) :
    Written text ([⟨.symbol w, [separator]⟩].intercalate parts) ↔ List.Forall₂ Written (pieces separator text) parts := by
  constructor
  · exact pieces_of_written some uncut
  · intro each
    have joined := written_of_pieces (w := w) separates cutAt_ne_nil each
    rwa [intercalate_cutAt] at joined

/-! ### Lists -/

variable {α : Type} {rule : Rule α} {item : Phrase α} {kinds : List Expected} {values : List α}

theorem uncut_of_read (follows : Rule.Follows rule item) (uses : item.Uses kinds) (apart : .symbol w ∉ kinds)
    (single : w.toList = [separator]) (separates : isSeparator separator = true) {v : α} (read : item ts v)
    (written : Written text ts) : Uncut separator text := by
  refine written.uncut (follows.lexemes read) single separates fun t member same => apart ?_
  exact same ▸ uses ts v read t member

theorem many_iff (single : w.toList = [separator]) : Phrase.many (do Phrase.symbol w; item) ts values ↔
    ∃ parts, List.Forall₂ item parts values ∧ ts = parts.flatMap ([⟨.symbol w, [separator]⟩] ++ ·) := by
  constructor
  · intro h
    induction h with
    | nil => exact ⟨[], .nil, rfl⟩
    | cons head _ ih =>
      obtain ⟨_, us, ⟨⟩, rfl, ⟨_, rfl, rfl⟩, read⟩ := head
      obtain ⟨parts, each, rfl⟩ := ih
      exact ⟨us :: parts, .cons read each, by rw [List.flatMap_cons, single]⟩
  · intro h
    obtain ⟨parts, each, rfl⟩ := h
    induction each with
    | nil => exact .nil
    | @cons us v parts values read _ ih =>
      rw [List.flatMap_cons]
      exact .cons ⟨_, us, (), rfl, ⟨_, by rw [single], rfl⟩, read⟩ ih

/-- The terminals of a list are those of its items with the symbol between two. -/
theorem list_iff (single : w.toList = [separator]) : Phrase.list (.symbol w) item ts values ↔
    ∃ parts, parts ≠ [] ∧ List.Forall₂ item parts values ∧ ts = [⟨.symbol w, [separator]⟩].intercalate parts := by
  constructor
  · intro h
    obtain ⟨first, _, v, rfl, head, more, _, vs, rfl, tail, rfl, rfl⟩ := h
    obtain ⟨parts, each, rfl⟩ := (many_iff single).mp tail
    refine ⟨first :: parts, List.cons_ne_nil _ _, .cons head each, ?_⟩
    rw [Phrase.Writes.intercalate_cons, List.append_nil]
  · intro h
    obtain ⟨parts, some, each, rfl⟩ := h
    cases each with
    | nil => exact absurd rfl some
    | @cons first v parts vs head each =>
      rw [Phrase.Writes.intercalate_cons]
      exact ⟨first, _, v, rfl, head, _, [], vs, (List.append_nil _).symm, (many_iff single).mpr ⟨parts, each, rfl⟩, rfl, rfl⟩

theorem exists_of_forall₂ {ρ σ : Type} {r : ρ → σ → Prop} {xs : List ρ} {ys : List σ} (h : List.Forall₂ r xs ys) :
    ∀ x ∈ xs, ∃ y, r x y := by
  induction h with
  | nil => simp
  | cons here _ ih =>
    intro x member
    rcases List.mem_cons.mp member with rfl | member
    · exact ⟨_, here⟩
    · exact ih x member

theorem forall₂_comp_iff {ρ σ τ : Type} {r : ρ → σ → Prop} {s : σ → τ → Prop} {xs : List ρ} {zs : List τ} :
    (∃ ys, List.Forall₂ r xs ys ∧ List.Forall₂ s ys zs) ↔ List.Forall₂ (fun x z => ∃ y, r x y ∧ s y z) xs zs := by
  constructor
  · intro h
    obtain ⟨ys, left, right⟩ := h
    induction left generalizing zs with
    | nil =>
      cases right
      exact .nil
    | cons here _ ih =>
      cases right with
      | cons there more => exact .cons ⟨_, here, there⟩ (ih more)
  · intro h
    induction h with
    | nil => exact ⟨[], .nil, .nil⟩
    | cons both _ ih =>
      obtain ⟨y, here, there⟩ := both
      obtain ⟨ys, left, right⟩ := ih
      exact ⟨y :: ys, .cons here left, .cons there right⟩

/-- The texts of a list are those that the separator cuts into texts of its items. -/
theorem written_list_iff (follows : Rule.Follows rule item) (uses : item.Uses kinds) (apart : .symbol w ∉ kinds)
    (single : w.toList = [separator]) (separates : isSeparator separator = true) :
    (∃ ts, Written text ts ∧ Phrase.list (.symbol w) item ts values) ↔
      List.Forall₂ (fun piece v => ∃ ts, Written piece ts ∧ item ts v) (pieces separator text) values := by
  have uncut : ∀ {parts : List (List Terminal)}, List.Forall₂ item parts values → ∀ part ∈ parts, ∀ piece, Written piece part →
      Uncut separator piece := by
    intro parts each part member piece written
    obtain ⟨v, read⟩ := exists_of_forall₂ each part member
    exact uncut_of_read follows uses apart single separates read written
  rw [← forall₂_comp_iff (r := Written) (s := item)]
  constructor
  · intro h
    obtain ⟨ts, written, read⟩ := h
    obtain ⟨parts, some, each, rfl⟩ := (list_iff single).mp read
    exact ⟨parts, (written_intercalate_iff separates some (uncut each)).mp written, each⟩
  · intro h
    obtain ⟨parts, cuts, each⟩ := h
    have some : parts ≠ [] := by
      rintro rfl
      exact cutAt_ne_nil (List.forall₂_nil_right_iff.mp cuts)
    exact ⟨_, (written_intercalate_iff separates some (uncut each)).mpr cuts, (list_iff single).mpr ⟨parts, some, each, rfl⟩⟩

end written

theorem Rule.readAll_ofList_iff {α : Type} {rule : Rule α} {phrase : Phrase α} {follow : Char → Prop} (follows : Follows rule phrase)
    (predicts : Predicts rule phrase follow) {piece : List Char} {v : α} :
    rule.readAll (.ofList piece) = .ok v ↔ ∃ ts, Written piece ts ∧ phrase ts v := by
  rw [Rule.readAll_eq_ok_iff follows predicts, String.toList_ofList]
  constructor
  · intro h
    obtain ⟨ts, tail, spelled, blank, read⟩ := h
    exact ⟨ts, ⟨tail, spelled, blank⟩, read⟩
  · intro h
    obtain ⟨ts, ⟨tail, spelled, blank⟩, read⟩ := h
    exact ⟨ts, tail, spelled, blank, read⟩

theorem Attribute.parse_eq_ok_iff {piece : List Char} {a : Attribute} :
    parse (.ofList piece) = .ok a ↔ ∃ ts, Written piece ts ∧ Phrase.attributeItem ts a :=
  Rule.readAll_ofList_iff Grammar.attributeItem_follows Grammar.attributeItem_predicts

namespace Hyperchunk

theorem parse_eq_ok_iff {piece : List Char} {clause : Hyperchunk} :
    parse (.ofList piece) = .ok clause ↔ ∃ ts, Written piece ts ∧ Phrase.hyperchunk ts clause :=
  Rule.readAll_ofList_iff Grammar.hyperchunk_follows Grammar.hyperchunk_predicts

theorem not_blank_of_parse {piece : List Char} {clause : Hyperchunk} (h : parse (.ofList piece) = .ok clause) : ¬ Blank piece := by
  intro blank
  obtain ⟨ts, written, read⟩ := parse_eq_ok_iff.mp h
  obtain rfl := written.eq_nil_of_blank (Grammar.hyperchunk_follows.lexemes read) blank
  exact Grammar.hyperchunk_solid clause read

end Hyperchunk

namespace Selector

theorem parse_iff_pieces {text : String} {selector : Selector} : parse text = .ok selector ↔
    List.Forall₂ (fun piece clause => Hyperchunk.parse (.ofList piece) = .ok clause) (pieces ';' text.toList) selector := by
  have apart : .symbol ";" ∉ Grammar.hyperchunkKinds := by decide
  simp only [parse_eq_ok_iff, Derives, reads_iff, Hyperchunk.parse_eq_ok_iff]
  exact written_list_iff Grammar.hyperchunk_follows Grammar.hyperchunk_uses apart rfl rfl

/-- A text is a selector exactly if each piece between its semicolons is a clause, and these are its clauses in order.
A piece with nothing in it makes the text no selector. -/
theorem parse_pieces (text : String) :
    (∀ selector, parse text = .ok selector ↔
      List.Forall₂ (fun piece clause => Hyperchunk.parse (.ofList piece) = .ok clause) (pieces ';' text.toList) selector) ∧
    ∀ piece ∈ pieces ';' text.toList, Blank piece → ∃ error, parse text = .error error := by
  refine ⟨fun selector => parse_iff_pieces, fun piece member blank => ?_⟩
  cases read : parse text with
  | error error => exact ⟨error, rfl⟩
  | ok selector =>
    have clauses := (parse_iff_pieces.mp read).imp fun piece clause parsed => And.intro (Hyperchunk.not_blank_of_parse parsed) parsed
    exact absurd blank (((List.forall₂_and_left _ _).mp clauses).1 piece member)

/-- A semicolon in a string does not cut, though a quote is escaped in front of it. -/
example : pieces ';' "0/f(\"\\\";\");1".toList = ["0/f(\"\\\";\")".toList, "1".toList] := by decide

end Selector

end ChunkSelector
