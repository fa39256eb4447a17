import ChunkSelector.Json.Event
import ChunkSelector.Proofs.Boundary
import ChunkSelector.Proofs.Walk

/-!
# Events of a reading

A walk through a text reports its length, then each clause when it is read, and then how reading ended
(`Event.ofReading_tells`). The clauses are those of the selector, or of a selector that the refused text
begins with.
-/

namespace ChunkSelector

namespace Rule

variable {α : Type} {rule item : Rule α} {phrase p : Phrase α} {separator : Rule Unit} {bar : Phrase Unit}

theorem items_ofFailure (c : Cursor) (s : Step α) : (Run.ofFailure c s).items = [] := by
  unfold Run.ofFailure
  split <;> rfl

/-- What is read before a repetition ends is of the phrase, also if it ends at an invalid literal. -/
theorem repeated_items (follows : Follows item p) (bound : List Char) (c : Cursor) :
    ∃ ts d, c.Passes ts d ∧ p.many ts (repeated item bound c).items := by
  induction bound generalizing c with
  | nil =>
    rw [repeated, items_ofFailure]
    exact ⟨[], c, Cursor.passes_nil_iff.mpr rfl, .nil⟩
  | cons _ bound ih =>
    rw [repeated]
    split
    · rename_i v next trail step
      obtain ⟨ts, passes, head⟩ := follows.sound (show (item c).verdict = .matched v next by rw [step])
      obtain ⟨us, d, more, tail⟩ := ih next
      exact ⟨ts ++ us, d, passes.append more, .cons head tail⟩
    · rw [items_ofFailure]
      exact ⟨[], c, Cursor.passes_nil_iff.mpr rfl, .nil⟩

/-- What a list has read, however it ended, is nothing or a list that stands in front. -/
theorem run_items (hs : Follows separator bar) (h : Follows item p) (c : Cursor) :
    (run separator item c).items = [] ∨ ∃ ts d, c.Passes ts d ∧ Phrase.list bar p ts (run separator item c).items := by
  have further : Follows (do separator; item) (do bar; p) := .bind hs fun _ => h
  rw [run]
  split
  · rename_i v next trail step
    obtain ⟨ts, passes, head⟩ := h.sound (show (item c).verdict = .matched v next by rw [step])
    obtain ⟨us, d, more, tail⟩ := repeated_items further next.rest next
    refine .inr ⟨ts ++ us, d, passes.append more, ts, us, v, rfl, head, us, [], _, by simp, tail, rfl, rfl⟩
  · exact .inl (items_ofFailure _ _)

/-- The turns of a list that report their items report all that the repetition reads. -/
theorem toldAlong_onMatch (consumes : rule.Consumes) (event : α → Event) (c : Cursor) :
    rule.toldAlong (rule.onMatch fun v _ => [event v]) c = (repeated rule c.rest c).items.map event := by
  induction c using many_induction consumes with
  | ends c stops =>
    rw [toldAlong_of_not_matched stops, onMatch_of_not_matched stops, repeated_of_not_matched c.rest stops, items_ofFailure,
      List.map_nil]
  | goes c v d step ih =>
    rw [toldAlong_of_matched consumes step, onMatch_of_matched step, ih,
      repeated_of_matched consumes (Nat.le_refl c.rest.length) step]
    rfl

/-- Items that report what they read are reported once each, in their order. -/
theorem toldByList_onMatch {text : String} (consumes : Consumes (do Token.symbol text; item)) (event : α → Event) (c : Cursor) :
    toldByList text item (item.onMatch fun v _ => [event v]) c = (run (Token.symbol text) item c).items.map event := by
  rw [toldByList, run, ← onMatch_bind]
  split
  · rename_i v next trail step
    have matched : (item c).verdict = .matched v next := by rw [step]
    rw [onMatch_of_matched matched, onMatch_of_matched matched, toldAlong_onMatch consumes]
    rfl
  · rename_i other
    have missing (v : α) (d : Cursor) : (item c).verdict ≠ .matched v d := fun step => other v d (item c).trail (by rw [← step])
    rw [onMatch_of_not_matched missing, onMatch_of_not_matched missing, items_ofFailure]
    rfl

theorem items_of_toStep {run : Run α} {items : List α} {d : Cursor} (h : run.toStep.verdict = .matched items d) :
    run.items = items := by
  unfold Run.toStep at h
  split at h
  · cases h
  · cases h
  · rename_i same
    cases h
    exact same

end Rule

namespace Walk

/-- Reading on foot ends with what parsing comes to, and with the events of the reading in the log. -/
theorem reading_ofText (text : String) (log : List Event) : ∃ reader, reading ⟨.ofText text.toList, log⟩ =
    some (Selector.parse text, ⟨reader, log ++ Event.ofReading text⟩) := by
  have clauses : Rule.toldByList ";" Grammar.hyperchunk Grammar.toldByClause (.start text.toList) =
      (Grammar.clauses (.start text.toList)).items.map Event.ofClause :=
    Rule.toldByList_onMatch (turn_consumes (by decide) Grammar.hyperchunk_follows) _ _
  have begun : (Reader.ofText text.toList).text = text.toList := rfl
  obtain ⟨reader, ended⟩ := complete_selector text (log ++ [.began (utf8Length text.toList)])
  refine ⟨reader, ?_⟩
  rw [reading, get_bind_apply, report_bind_apply, begun, bind_apply, observing_apply, ended, clauses, Option.map_some]
  dsimp only
  rw [report_bind_apply, ofExcept_apply, Event.ofReading]
  simp only [List.append_assoc, List.cons_append, List.nil_append]

end Walk

namespace Selector

variable {text : String}

theorem clauses_of_parse {selector : Selector} (accepted : parse text = .ok selector) :
    (Grammar.clauses (.start text.toList)).items = selector := by
  obtain ⟨e, matched⟩ := Rule.readAll_eq_ok_iff_matched.mp accepted
  obtain ⟨d, first, -⟩ := Rule.toEnd_matched_iff.mp matched
  exact Rule.items_of_toStep first

/-- The clauses that were read are those of a selector that the text begins with. -/
theorem parse_clauses (text : String) : (Grammar.clauses (.start text.toList)).items = [] ∨
    ∃ before after, text = before ++ after ∧ parse before = .ok (Grammar.clauses (.start text.toList)).items := by
  have semicolon : Rule.Follows (Token.symbol ";") (Phrase.symbol ";") := Grammar.symbol_follows (by decide)
  refine (Rule.run_items semicolon Grammar.hyperchunk_follows (.start text.toList)).imp_right ?_
  rintro ⟨ts, d, passes, read⟩
  obtain ⟨before, split, -, written, -⟩ := passes.written (Grammar.selector_follows.lexemes read)
  refine ⟨.ofList before, .ofList d.skipBlanks.rest, ?_, parse_of_written written read⟩
  rw [← String.ofList_append, ← split, String.ofList_toList]

end Selector

namespace Event

/-- The sizes of the sections of a clause. -/
def clauseFields (h : Hyperchunk) : List (String × Json) :=
  [("arrays", .int h.arrays.length), ("attributes", .int (h.attributes.getD []).length), ("has_order", .bool h.order.isSome),
    ("hyperslices", .int (h.hyperslices.getD []).length)]

theorem fields_ofClause (h : Hyperchunk) : (ofClause h).fields = clauseFields h := by
  obtain ⟨arrays, attributes, order, hyperslices⟩ := h
  cases attributes <;> cases hyperslices <;> rfl

theorem level_ofResult (result : Except SyntaxError Selector) : (ofResult result).level = .debug := by
  cases result <;> rfl

/-- A walk through the text reports these events. The first one tells the length of the text, and the last one its count of clauses
or its error. Between them stands one event for each clause of the selector, or of a selector that the refused text begins with. -/
theorem ofReading_tells (text : String) :
    (∀ log, ∃ reader, Walk.reading ⟨.ofText text.toList, log⟩ = some (Selector.parse text, ⟨reader, log ++ ofReading text⟩)) ∧
    ∃ (read : List Hyperchunk) (last : List (String × Json)),
      (ofReading text).map (fun event => (event.level, event.fields)) =
        (.debug, [("length", .int text.utf8ByteSize)]) :: (read.map fun h => (.trace, clauseFields h)) ++ [(.debug, last)] ∧
      (∀ selector, Selector.parse text = .ok selector → read = selector ∧ last = [("count", .int selector.length)]) ∧
      ∀ error, Selector.parse text = .error error →
        last = [("offset", .int error.offset), ("error", .string error.message)] ∧
        (read = [] ∨ ∃ before after, text = before ++ after ∧ Selector.parse before = .ok read) := by
  refine ⟨Walk.reading_ofText text, (Grammar.clauses (.start text.toList)).items, (ofResult (Selector.parse text)).fields,
    ?_, ?_, ?_⟩
  · have clause (h : Hyperchunk) : ((ofClause h).level, (ofClause h).fields) = (.trace, clauseFields h) := by
      rw [fields_ofClause]
      rfl
    rw [ofReading, List.map_cons, List.map_append, List.map_map, utf8Length_toList]
    simp only [Function.comp_def, clause, List.map_cons, List.map_nil, level_ofResult]
    rfl
  · intro selector accepted
    rw [accepted]
    exact ⟨Selector.clauses_of_parse accepted, rfl⟩
  · intro error refused
    rw [refused]
    exact ⟨rfl, Selector.parse_clauses text⟩

/-- Two clauses are read before the third one is refused. -/
example : ofReading "0|1/a0;2;" =
    [.began 9, .clause 2 1 false 0, .clause 1 0 false 0, .refused ⟨9, .emptySection ';', none⟩] := by rfl

end Event

end ChunkSelector
