import ChunkSelector.Proofs.Blame
import ChunkSelector.Proofs.Boundary
import ChunkSelector.Proofs.Numeral
import ChunkSelector.Proofs.Retry
import ChunkSelector.Reading.Reader

/-!
# Histories of a reader

A reader is asked for one token after the other, and between these it may go back to where it has been. In
whatever order that happens, its trail is the summary of the attempts that failed (`Reader.play_summarizes`).
-/

namespace ChunkSelector

/-! ### Failed attempts and their summary -/

/-- A failed attempt: what was wanted, and at which cursor. -/
structure Attempt where
  cursor : Cursor
  wanted : Expected

namespace Attempt

/-- Where the attempt counts, behind the blanks. -/
def offset (a : Attempt) : Nat := a.cursor.skipBlanks.offset

/-- The attribute token on which the attempt failed, as its index does not fit. -/
def overlong? (a : Attempt) : Option Overlong :=
  if a.wanted = .token .attributeIndex then
    (Lexeme.attributeIndex a.cursor.skipBlanks.rest).map fun (text, after) =>
      ⟨text, a.offset, (a.cursor.skipBlanks.past text after).offset⟩
  else none

end Attempt

namespace Trail

/-- The greatest offset of the attempts, zero if there is none. -/
def furthestOf (attempts : List Attempt) : Nat := (attempts.map Attempt.offset).foldr max 0

/-- What was wanted at an offset, each once, in the order in which it was first wanted there. -/
def wantedAt (offset : Nat) (attempts : List Attempt) : List Expected :=
  ((attempts.filter (·.offset = offset)).map Attempt.wanted).eraseDups

/-- The trail that sums up the attempts. -/
def ofAttempts (attempts : List Attempt) : Trail where
  furthest := furthestOf attempts
  expected := wantedAt (furthestOf attempts) attempts
  overlong := attempts.filterMap Attempt.overlong?

variable {attempts more : List Attempt} {n : Nat}

theorem le_furthestOf : ∀ a ∈ attempts, a.offset ≤ furthestOf attempts := by
  induction attempts with
  | nil => simp
  | cons b attempts ih =>
    intro a member
    have cons : furthestOf (b :: attempts) = max b.offset (furthestOf attempts) := rfl
    rcases List.mem_cons.mp member with rfl | member
    · omega
    · have := ih a member
      omega

theorem furthestOf_append (attempts more : List Attempt) :
    furthestOf (attempts ++ more) = max (furthestOf attempts) (furthestOf more) := by
  induction attempts with
  | nil => simp [furthestOf]
  | cons a attempts ih =>
    simp only [furthestOf, List.cons_append, List.map_cons, List.foldr_cons] at ih ⊢
    rw [ih, Nat.max_assoc]

/-- Nothing was wanted behind the greatest offset. -/
theorem wantedAt_of_lt (h : furthestOf attempts < n) : wantedAt n attempts = [] := by
  have none : attempts.filter (·.offset = n) = [] := by
    refine List.filter_eq_nil_iff.mpr fun a member => ?_
    have := le_furthestOf a member
    simp only [decide_eq_true_eq]
    omega
  rw [wantedAt, none]
  rfl

theorem eraseDups_filter (p : Expected → Bool) (list : List Expected) :
    (list.filter p).eraseDups = list.eraseDups.filter p := by
  induction size : list.length using Nat.strongRecOn generalizing list with
  | ind n ih =>
    cases list with
    | nil => rfl
    | cons e list =>
      have shorter : (list.filter fun d => !d == e).length < n := by
        rw [← size]
        exact Nat.lt_succ_of_le (List.length_filter_le _ _)
      rw [List.eraseDups_cons, List.filter_cons, List.filter_cons, ← ih _ shorter _ rfl, List.filter_filter]
      cases holds : p e with
      | true =>
        simp only [if_true, List.eraseDups_cons, List.filter_filter, Bool.and_comm]
      | false =>
        -- An entry that the filter drops is not among those that it keeps.
        have absent : (list.filter fun d => p d && !d == e) = list.filter p := by
          refine List.filter_congr fun d _ => ?_
          by_cases same : d = e
          · simp [same, holds]
          · simp [same]
        rw [absent]
        simp

theorem wantedAt_append (n : Nat) (attempts more : List Attempt) :
    wantedAt n (attempts ++ more) = joinExpected (wantedAt n attempts) (wantedAt n more) := by
  rw [wantedAt, List.filter_append, List.map_append, List.eraseDups_append, List.removeAll, eraseDups_filter]
  refine congrArg (_ ++ ·) (List.filter_congr fun e _ => ?_)
  simp [wantedAt]

theorem ofAttempts_append (attempts more : List Attempt) :
    ofAttempts (attempts ++ more) = ofAttempts attempts ++ ofAttempts more := by
  have furthest := furthestOf_append attempts more
  simp only [append_def, join, ofAttempts, List.filterMap_append, furthest, wantedAt_append, Trail.mk.injEq, and_true,
    true_and]
  rcases Nat.lt_trichotomy (furthestOf attempts) (furthestOf more) with less | same | less
  · rw [if_pos less, Nat.max_eq_right (by omega), wantedAt_of_lt less]
    simp [joinExpected]
  · rw [if_neg (by omega), if_pos same, ← same, Nat.max_self]
  · rw [if_neg (by omega), if_neg (by omega), Nat.max_eq_left (by omega), wantedAt_of_lt less]
    simp [joinExpected]

theorem ofAttempts_singleton (a : Attempt) : ofAttempts [a] = ⟨a.offset, [a.wanted], a.overlong?.toList⟩ := by
  have one : [a.wanted].eraseDups = [a.wanted] := by simp [List.eraseDups_cons]
  cases overlong : a.overlong? <;> simp [ofAttempts, furthestOf, wantedAt, overlong, one]

theorem ofAttempts_of_plain {c : Cursor} {wanted : Expected} (plain : wanted ≠ .token .attributeIndex) :
    ofAttempts [⟨c, wanted⟩] = attempt c.skipBlanks.offset wanted := by
  rw [ofAttempts_singleton, Attempt.overlong?, if_neg plain]
  rfl

end Trail

/-! ### Asking for one thing -/

/-- The attempt that a rule for one thing makes in vain. -/
def Rule.failure {α : Type} (rule : Rule α) (wanted : Expected) (c : Cursor) : List Attempt :=
  match (rule c).verdict with
  | .noMatch => [⟨c, wanted⟩]
  | .matched .. | .invalid .. => []

namespace Step

variable {α β : Type} {s : Step α} {wanted : Expected} {c : Cursor}

/-- Where a reader is after the step. -/
def place (c : Cursor) (s : Step α) : Cursor :=
  match s.verdict with
  | .matched _ next => next
  | .noMatch => c
  | .invalid _ stop => stop

/-- What asking for one thing comes to: only where it is not there, the attempt is remembered. -/
inductive Settles (wanted : Expected) (c : Cursor) : Step α → Prop where
  | matched {v : α} {next : Cursor} (inside : ∀ text, c.In text → next.In text) : Settles wanted c ⟨.matched v next, .empty⟩
  | noMatch : Settles wanted c ⟨.noMatch, .ofAttempts [⟨c, wanted⟩]⟩
  | invalid {error : SyntaxError} {stop : Cursor} (inside : ∀ text, c.In text → stop.In text) :
      Settles wanted c ⟨.invalid error stop, .empty⟩

theorem place_map (f : α → β) (rule : Rule α) (c : Cursor) : ((f <$> rule : Rule β) c).place c = (rule c).place c := by
  cases verdict : (rule c).verdict with
  | matched v d => rw [place, place, verdict, Rule.map_of_matched verdict]
  | noMatch => rw [place, place, verdict, Rule.map_of_noMatch verdict]
  | invalid error d => rw [place, place, verdict, Rule.map_of_invalid verdict]

theorem place_orElse (rule other : Rule α) (c : Cursor) :
    ((rule <|> other) c).place c = (rule c).place c ∨ ((rule <|> other) c).place c = (other c).place c := by
  cases verdict : (rule c).verdict with
  | matched v d => exact .inl (by rw [Rule.orElse_of_matched verdict])
  | noMatch => exact .inr (by rw [Rule.orElse_of_noMatch verdict]; rfl)
  | invalid error d => exact .inl (by rw [Rule.orElse_of_invalid verdict])

theorem Settles.place_in (h : s.Settles wanted c) {text : List Char} (inside : c.In text) : (s.place c).In text := by
  cases h with
  | matched next => exact next text inside
  | noMatch => exact inside
  | invalid stop => exact stop text inside

theorem Settles.trail {rule : Rule α} (h : (rule c).Settles wanted c) : (rule c).trail = .ofAttempts (rule.failure wanted c) := by
  unfold Rule.failure
  generalize rule c = step at h
  cases h <;> rfl

end Step

namespace Token

variable {α : Type} {wanted : Expected} {cut : List Char → Option (List Char × List Char)}
  {meaning : List Char → Cursor → Cursor → Step α} {c : Cursor}

open Step (Settles)

theorem settles_of_cut {text after : List Char} (same : c.skipBlanks.rest = text ++ after) :
    (∀ v : α, (matched v (c.skipBlanks.past text after)).Settles wanted c) ∧
      (outOfRange text c.skipBlanks (c.skipBlanks.past text after) : Step α).Settles wanted c := by
  have inside : ∀ whole, c.In whole → (c.skipBlanks.past text after).In whole := fun whole h => h.skipBlanks.past same
  exact ⟨fun v => .matched inside, .invalid inside⟩

theorem settles_attempt (plain : wanted ≠ .token .attributeIndex) :
    Settles wanted c (⟨.noMatch, .attempt c.skipBlanks.offset wanted⟩ : Step α) := by
  rw [← Trail.ofAttempts_of_plain plain]
  exact .noMatch

/-- A rule that cuts off a lexeme settles it if the meaning of the lexeme does. -/
theorem lexeme_settles (whole : ∀ {text lexeme after}, cut text = some (lexeme, after) → lexeme ++ after = text)
    (plain : wanted ≠ .token .attributeIndex)
    (meant : ∀ text after, c.skipBlanks.rest = text ++ after →
      (meaning text c.skipBlanks (c.skipBlanks.past text after)).Settles wanted c) :
    (lexeme wanted cut meaning c).Settles wanted c := by
  cases read : cut c.skipBlanks.rest with
  | none =>
    rw [lexeme_of_none read]
    exact settles_attempt plain
  | some pair =>
    rw [lexeme_of_cut read]
    exact meant _ _ (whole read).symm

theorem ranged_settles (whole : ∀ {text lexeme after}, cut text = some (lexeme, after) → lexeme ++ after = text)
    (plain : wanted ≠ .token .attributeIndex) (fits : List Char → Prop) [DecidablePred fits] (value : List Char → α) :
    (lexeme wanted cut (fun text start next =>
      if fits text then matched (value text) next else outOfRange text start next) c).Settles wanted c := by
  refine lexeme_settles whole plain fun text after same => ?_
  split
  · exact (settles_of_cut same).1 _
  · exact (settles_of_cut same).2

theorem symbol_settles (text : String) (c : Cursor) : (symbol text c).Settles (.symbol text) c :=
  lexeme_settles Lexeme.append_of_literally (by simp) fun _ _ same => (settles_of_cut same).1 ()

theorem endOfInput_settles (c : Cursor) : (endOfInput c).Settles .endOfInput c := by
  refine lexeme_settles ?_ (by simp) fun _ _ same => (settles_of_cut same).1 ()
  intro text lexeme after read
  split at read
  · rename_i empty
    cases read
    exact (List.isEmpty_iff.mp empty).symm
  · cases read

theorem integer_settles (c : Cursor) : (integer c).Settles (.token .integer) c :=
  ranged_settles Lexeme.append_of_integer (by simp) _ _

theorem float_settles (c : Cursor) : (float c).Settles (.token .float) c :=
  ranged_settles Lexeme.append_of_float (by simp) _ _

theorem identifier_settles (c : Cursor) : (identifier c).Settles (.token .identifier) c :=
  lexeme_settles Lexeme.append_of_identifier (by simp) fun _ _ same => (settles_of_cut same).1 _

theorem attributeIndex_settles (c : Cursor) : (attributeIndex c).Settles (.token .attributeIndex) c := by
  cases read : Lexeme.attributeIndex c.skipBlanks.rest with
  | none =>
    have nothing : (⟨c, .token .attributeIndex⟩ : Attempt).overlong? = none := by simp [Attempt.overlong?, read]
    have step : attributeIndex c = ⟨.noMatch, .ofAttempts [⟨c, .token .attributeIndex⟩]⟩ := by
      rw [Trail.ofAttempts_singleton, nothing]
      exact lexeme_of_none read
    rw [step]
    exact .noMatch
  | some pair =>
    obtain ⟨text, after⟩ := pair
    have same := (Lexeme.append_of_attributeIndex read).symm
    rw [attributeIndex, lexeme_of_cut read]
    dsimp only
    split
    · exact (settles_of_cut same).1 _
    · -- The token is remembered with the attempt.
      have token : (⟨c, .token .attributeIndex⟩ : Attempt).overlong? =
          some ⟨text, c.skipBlanks.offset, (c.skipBlanks.past text after).offset⟩ := by
        rw [Attempt.overlong?, if_pos rfl, read]
        rfl
      have trail := Trail.ofAttempts_singleton ⟨c, .token .attributeIndex⟩
      rw [token] at trail
      exact trail ▸ .noMatch

theorem comparator_settles (c : Cursor) : (comparator c).Settles (.token .comparator) c := by
  rcases comparator_cases c.skipBlanks.rest with ⟨op, after, same, full⟩ | none
  · rw [comparator_of_begins same full]
    exact (settles_of_cut same).1 op
  · rw [comparator_of_none none]
    exact settles_attempt (by simp)

theorem string_settles (c : Cursor) : (string c).Settles (.token .string) c := by
  rcases string_cases c.skipBlanks.rest with ⟨body, after, opens, form⟩ | ⟨rest, opens, unclosed⟩ | other
  · rw [string_of_body opens form]
    exact (settles_of_cut (by simpa using opens)).1 _
  · rw [string_of_unclosed opens unclosed]
    exact .invalid fun _ inside => inside.skipBlanks
  · rw [string_of_other other]
    exact settles_attempt (by simp)

end Token

namespace Reader

/-! ### Queries -/

/-- What a reader can be asked for. -/
inductive Query where
  | symbol (text : String)
  | endOfInput
  | integer
  | float
  | number
  | string
  | identifier
  | attributeIndex
  | comparator

namespace Query

def Value : Query → Type
  | symbol _ | endOfInput => Unit
  | integer => Int64
  | float => Binary64
  | number => Number
  | string | identifier => String
  | attributeIndex => AttributeIndex
  | comparator => Comparator

def rule : (query : Query) → Rule query.Value
  | symbol text => Token.symbol text
  | endOfInput => Token.endOfInput
  | integer => Token.integer
  | float => Token.float
  | number => Token.number
  | string => Token.string
  | identifier => Token.identifier
  | attributeIndex => Token.attributeIndex
  | comparator => Token.comparator

/-- The attempts that fail when the query is put at a cursor. -/
def failures : Query → Cursor → List Attempt
  | symbol text, c => (Token.symbol text).failure (.symbol text) c
  | endOfInput, c => Token.endOfInput.failure .endOfInput c
  | integer, c => Token.integer.failure (.token .integer) c
  | float, c => Token.float.failure (.token .float) c
  | number, c =>
    -- An integer is tried where there is no float.
    match Token.float.failure (.token .float) c with
    | [] => []
    | missing => missing ++ Token.integer.failure (.token .integer) c
  | string, c => Token.string.failure (.token .string) c
  | identifier, c => Token.identifier.failure (.token .identifier) c
  | attributeIndex, c => Token.attributeIndex.failure (.token .attributeIndex) c
  | comparator, c => Token.comparator.failure (.token .comparator) c

theorem settles (query : Query) (number : query ≠ number) (c : Cursor) :
    ∃ wanted, (query.rule c).Settles wanted c ∧ query.failures c = query.rule.failure wanted c := by
  cases query with
  | symbol text => exact ⟨_, Token.symbol_settles text c, rfl⟩
  | endOfInput => exact ⟨_, Token.endOfInput_settles c, rfl⟩
  | integer => exact ⟨_, Token.integer_settles c, rfl⟩
  | float => exact ⟨_, Token.float_settles c, rfl⟩
  | number => exact absurd rfl number
  | string => exact ⟨_, Token.string_settles c, rfl⟩
  | identifier => exact ⟨_, Token.identifier_settles c, rfl⟩
  | attributeIndex => exact ⟨_, Token.attributeIndex_settles c, rfl⟩
  | comparator => exact ⟨_, Token.comparator_settles c, rfl⟩

theorem number_trail (c : Cursor) : (Token.number c).trail = .ofAttempts (failures number c) := by
  have float : ((.float <$> Token.float : Rule Number) c).trail = .ofAttempts (Token.float.failure (.token .float) c) :=
    (Rule.map_trail _ _ c).trans (Token.float_settles c).trail
  have integer : ((.int <$> Token.integer : Rule Number) c).trail = .ofAttempts (Token.integer.failure (.token .integer) c) :=
    (Rule.map_trail _ _ c).trans (Token.integer_settles c).trail
  cases verdict : (Token.float c).verdict with
  | matched v d =>
    have found : Token.float.failure (.token .float) c = [] := by simp only [Rule.failure, verdict]
    rw [Token.number, Rule.orElse_of_matched (Rule.map_of_matched verdict), float, failures, found]
  | noMatch =>
    have missing : Token.float.failure (.token .float) c = [⟨c, .token .float⟩] := by simp only [Rule.failure, verdict]
    rw [Token.number, Rule.orElse_of_noMatch (Rule.map_of_noMatch verdict), Step.after, float, integer, failures, missing,
      Trail.ofAttempts_append]
  | invalid error d =>
    have found : Token.float.failure (.token .float) c = [] := by simp only [Rule.failure, verdict]
    rw [Token.number, Rule.orElse_of_invalid (Rule.map_of_invalid verdict), float, failures, found]

/-- Its failed attempts are all that a query leaves in the trail. -/
theorem rule_trail (query : Query) (c : Cursor) : (query.rule c).trail = .ofAttempts (query.failures c) := by
  by_cases number : query = number
  · subst number
    exact number_trail c
  · obtain ⟨wanted, settles, failures⟩ := query.settles number c
    rw [failures]
    exact settles.trail

theorem rule_place_in (query : Query) {c : Cursor} {text : List Char} (inside : c.In text) :
    ((query.rule c).place c).In text := by
  by_cases number : query = number
  · subst number
    rcases Step.place_orElse (.float <$> Token.float : Rule Number) (.int <$> Token.integer) c with float | integer
    · exact (float.trans (Step.place_map _ _ c)) ▸ (Token.float_settles c).place_in inside
    · exact (integer.trans (Step.place_map _ _ c)) ▸ (Token.integer_settles c).place_in inside
  · obtain ⟨wanted, settles, -⟩ := query.settles number c
    exact settles.place_in inside

end Query

/-! ### Moves -/

/-- A move of a reader: a query, or a return to where it was after so many moves. -/
inductive Move where
  | ask (query : Query)
  | goBack (turn : Nat)

/-- A reader with all places where it has been and all attempts that failed. -/
structure History where
  reader : Reader
  places : List Cursor
  failures : List Attempt

namespace History

def start (text : List Char) : History := ⟨.ofText text, [.start text], []⟩

/-- One move on. A return to a turn that has not come yet stays. -/
def move (h : History) : Move → History
  | .ask query =>
    let next := (h.reader.attempt query.rule).2
    ⟨next, h.places ++ [next.cursor], h.failures ++ query.failures h.reader.cursor⟩
  | .goBack turn =>
    let place := h.places[turn]?.getD h.reader.cursor
    ⟨h.reader.goTo place, h.places ++ [place], h.failures⟩

end History

def play (text : List Char) (moves : List Move) : History := moves.foldl History.move (.start text)

theorem attempt_cursor {α : Type} (reader : Reader) (rule : Rule α) :
    (reader.attempt rule).2.cursor = (rule reader.cursor).place reader.cursor := by
  cases verdict : (rule reader.cursor).verdict <;> simp [attempt, Step.place, verdict]

theorem attempt_trail {α : Type} (reader : Reader) (rule : Rule α) :
    (reader.attempt rule).2.trail = reader.trail ++ (rule reader.cursor).trail := by
  cases verdict : (rule reader.cursor).verdict <;> simp [attempt, verdict]

theorem attempt_text {α : Type} (reader : Reader) (rule : Rule α) : (reader.attempt rule).2.text = reader.text := by
  cases verdict : (rule reader.cursor).verdict <;> simp [attempt, verdict]

namespace History

variable {h : History} {text : List Char}

/-- The reader and its places stand in the text, and the trail is the summary of the failed attempts. -/
structure Sound (text : List Char) (h : History) : Prop where
  text_eq : h.reader.text = text
  cursor : h.reader.cursor.In text
  places : ∀ c ∈ h.places, c.In text
  trail : h.reader.trail = .ofAttempts h.failures

theorem start_sound (text : List Char) : (start text).Sound text where
  text_eq := rfl
  cursor := Cursor.start_in text
  places c member := by
    obtain rfl := List.mem_singleton.mp member
    exact Cursor.start_in text
  trail := rfl

theorem Sound.move (sound : h.Sound text) (move : Move) : (h.move move).Sound text := by
  have further : ∀ place : Cursor, place.In text → ∀ c ∈ h.places ++ [place], c.In text := by
    intro place inside c member
    rcases List.mem_append.mp member with before | now
    · exact sound.places c before
    · obtain rfl := List.mem_singleton.mp now
      exact inside
  cases move with
  | ask query =>
    have inside : (h.reader.attempt query.rule).2.cursor.In text := by
      rw [attempt_cursor]
      exact query.rule_place_in sound.cursor
    refine ⟨(attempt_text _ _).trans sound.text_eq, inside, further _ inside, ?_⟩
    rw [History.move, attempt_trail, sound.trail, query.rule_trail, Trail.ofAttempts_append]
  | goBack turn =>
    have inside : (h.places[turn]?.getD h.reader.cursor).In text := by
      cases earlier : h.places[turn]? with
      | none => exact sound.cursor
      | some place => exact sound.places place (List.mem_of_getElem? earlier)
    exact ⟨sound.text_eq, inside, further _ inside, sound.trail⟩

theorem Sound.moves (sound : h.Sound text) (moves : List Move) : (moves.foldl History.move h).Sound text := by
  induction moves generalizing h with
  | nil => exact sound
  | cons move moves ih => exact ih (sound.move move)

end History

theorem play_sound (text : List Char) (moves : List Move) : (play text moves).Sound text :=
  (History.start_sound text).moves moves

/-- Whatever the moves, the reader stands between two characters, a query without an answer does not move it, and its trail sums
up all attempts that failed: the furthest of them, and what was wanted there. If reading stopped on the overlong token that was
tried last, the error is about that token. Otherwise it stands where the furthest attempt failed, and tells what was wanted there
if no section is empty in front of it. -/
theorem play_summarizes (text : String) (moves : List Move) :
    let h := play text.toList moves
    let furthest := Trail.furthestOf h.failures
    let around := splitAtOffset text.toList furthest
    String.Pos.Raw.IsValid text ⟨h.reader.cursor.offset⟩ ∧
    (∀ query, (h.reader.attempt query.rule).1 = .ok none → (h.move (.ask query)).reader.cursor = h.reader.cursor) ∧
    h.reader.trail.furthest = furthest ∧
    h.reader.trail.expected = Trail.wantedAt furthest h.failures ∧
    (∀ token, (h.failures.filterMap Attempt.overlong?).getLast? = some token →
      Trail.stoppedOn text.toList furthest token = true → h.reader.diagnosis = .ofNumber token.text token.start) ∧
    ((∀ token, (h.failures.filterMap Attempt.overlong?).getLast? = some token →
      Trail.stoppedOn text.toList furthest token = false) →
      h.reader.diagnosis.offset = furthest ∧
      h.reader.diagnosis.kind = Trail.kindBetween around.1 around.2 (Trail.wantedAt furthest h.failures)) := by
  intro h furthest around
  have sound : h.Sound text.toList := play_sound text.toList moves
  have summary : h.reader.diagnosis = (Trail.ofAttempts h.failures).diagnose text.toList := by
    rw [diagnosis, sound.trail, sound.text_eq]
  refine ⟨sound.cursor.boundary.isValid, fun query missing => (gives_of_noMatch (noMatch_of_none missing)).2, ?_, ?_, ?_, ?_⟩
  · rw [sound.trail]
    rfl
  · rw [sound.trail]
    rfl
  · intro token last stopped
    rw [summary]
    exact Trail.diagnose_of_last last stopped
  · intro away
    rw [summary, Trail.diagnose_of_away away]
    exact ⟨rfl, rfl⟩

/-- A name that is an overlong attribute index as well is the error where reading goes no further, although it was read as a name
and the furthest attempt stands behind it. -/
theorem play_stops_on_overlong_name :
    let h := play "a18446744073709551616".toList [.ask .attributeIndex, .ask .identifier, .ask (.symbol ":")]
    Trail.furthestOf h.failures = 21 ∧ Trail.wantedAt 21 h.failures = [.symbol ":"] ∧
    h.reader.diagnosis = .ofNumber "a18446744073709551616".toList 0 ∧
    h.reader.diagnosis.offset ≠ Trail.furthestOf h.failures := by
  intro h
  have furthest : Trail.furthestOf h.failures = 21 := by rfl
  have named : h.reader.diagnosis = .ofNumber "a18446744073709551616".toList 0 := by rfl
  refine ⟨furthest, by rfl, named, ?_⟩
  rw [furthest, named]
  decide

/-- What failed in front of the furthest attempt is not remembered, also after a return. -/
example : (play "0; x".toList [.ask .number, .ask (.symbol ";"), .ask .number, .goBack 0, .ask .string, .goBack 2, .ask .string,
    .ask .float]).reader.trail = ⟨3, [.token .float, .token .integer, .token .string], []⟩ := by rfl

end Reader

end ChunkSelector
