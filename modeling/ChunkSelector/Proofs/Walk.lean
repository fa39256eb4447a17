import ChunkSelector.Event
import ChunkSelector.Proofs.Blame
import ChunkSelector.Proofs.History

/-!
# Walks

A rule that does not match has no cursor to go on from. A walk does the same with a reader that moves at each token: it marks a
place, and gives up by going back there. Each walk of this module is its rule (`Walk.slice_eq` and its companions), and so it ends.

A walk reports each clause when it has read it. What it has reported stays, also if it gives up or is broken off later.
-/

namespace ChunkSelector

/-- A reader on foot, and the events that were reported. -/
structure Walker where
  reader : Reader
  log : List Event

/-- A procedure of a walker. It may fail to end, and it may be broken off by an invalid literal. -/
abbrev Walk (α : Type) := ExceptT SyntaxError (StateT Walker Option) α

namespace Walk

variable {α β : Type}

/-! ### Walks by the grammar -/

/-- Takes a token, if it is there. -/
def token (rule : Rule α) : Walk (Option α) := fun walker =>
  some ((walker.reader.attempt rule).1, { walker with reader := (walker.reader.attempt rule).2 })

def place : Walk Cursor := return (← get).reader.cursor

def giveUp (mark : Cursor) : Walk (Option α) := do
  modify fun walker => { walker with reader := walker.reader.goTo mark }
  return none

def report (event : Event) : Walk Unit := modify fun walker => { walker with log := walker.log ++ [event] }

def symbol (text : String) : Walk Bool := return (← token (Token.symbol text)).isSome

def slice : Walk (Option Slice) := do
  let mark ← place
  let start ← token Token.integer
  if ← symbol ":" then
    let stop ← token Token.integer
    if ← symbol ":" then return some ⟨start, stop, ← token Token.integer⟩
    else return some ⟨start, stop, none⟩
  else giveUp mark

def dimension : Walk (Option Dimension) := do
  match ← slice with
  | some range => return some (.slice range)
  | none =>
    if ← symbol "..." then return some .ellipsis
    else return (← token Token.integer).map .index

def literal : Walk (Option Literal) := do
  match ← token Token.number with
  | some n => return some (.number n)
  | none => return (← token Token.string).map .string

def comparison : Walk (Option Comparison) := do
  let mark ← place
  match ← token Token.attributeIndex with
  | some index =>
    match ← token Token.comparator with
    | some op =>
      match ← literal with
      | some value => return some ⟨index, op, value⟩
      | none => giveUp mark
    | none => giveUp mark
  | none => return none

/-- One turn of a list: a separator and an item. A separator without an item is left where it is. -/
def turn (separator : String) (item : Walk (Option α)) : Walk (Option α) := do
  let mark ← place
  if ← symbol separator then
    match ← item with
    | some next => return some next
    | none => giveUp mark
  else return none

/-- Adds to the items turn by turn, until one comes to nothing. That one does is no part of the definition. -/
def turns (item : Walk (Option α)) (separator : String) (items : List α) : Walk (List α) := do
  match ← turn separator item with
  | some next => item |>.turns separator (items ++ [next])
  | none => return items
partial_fixpoint

def separated (separator : String) (item : Walk (Option α)) : Walk (Option (List α)) := do
  match ← item with
  | some first => return some (← turns item separator [first])
  | none => return none

def chain (connective : Connective) (operand : Walk (Option Condition)) : Walk (Option Condition) :=
  return (← separated connective.keyword operand).map (.ofOperands connective)

def conjunction : Walk (Option Condition) := chain .and (return (← comparison).map .comparison)

def condition : Walk (Option Condition) := chain .or conjunction

def argument : Walk (Option Argument) := do
  match ← token Token.attributeIndex with
  | some index => return some (.index index)
  | none =>
    match ← token Token.string with
    | some s => return some (.string s)
    | none =>
      match ← token Token.float with
      | some x => return some (.number (.float x))
      | none => return (← token Token.integer).map fun n => .number (.int n)

def call : Walk (Option Call) := do
  let mark ← place
  match ← token Token.identifier with
  | some name =>
    if ← symbol "(" then
      let arguments ← separated "," argument
      if ← symbol ")" then return some ⟨name, arguments.getD []⟩
      else giveUp mark
    else giveUp mark
  | none => return none

def attributeItem : Walk (Option Attribute) := do
  match ← condition with
  | some filter => return some (.condition filter)
  | none =>
    match ← call with
    | some function => return some (.call function)
    | none =>
      match ← token Token.attributeIndex with
      | some index => return some (.index index)
      | none => return (← dimension).map .dimension

def hyperslice : Walk (Option Hyperslice) := separated "," dimension

def alternatives (item : Walk (Option α)) : Walk (Option (List α)) := separated "|" item

/-- A slash and alternatives behind it. -/
def alternativesSection (item : Walk (Option α)) : Walk (Option (List α)) := do
  let mark ← place
  if ← symbol "/" then
    match ← alternatives item with
    | some items => return some items
    | none => giveUp mark
  else giveUp mark

def orderSection : Walk (Option Call) := do
  let mark ← place
  if ← symbol "/" then
    if ← symbol "order:" then
      match ← call with
      | some order => return some order
      | none => giveUp mark
    else giveUp mark
  else giveUp mark

/-- The sections that may stand behind the arrays. -/
def sections (arrays : List Dimension) : Walk Hyperchunk := do
  match ← alternativesSection attributeItem with
  | some attributes =>
    let order ← orderSection
    let hyperslices ← alternativesSection hyperslice
    return ⟨arrays, some attributes, order, hyperslices⟩
  | none => return ⟨arrays, none, none, none⟩

/-- A clause is reported when all its sections are read. -/
def hyperchunk : Walk (Option Hyperchunk) := do
  match ← alternatives dimension with
  | some arrays =>
    let clause ← sections arrays
    report (.ofClause clause)
    return some clause
  | none => return none

def selector : Walk (Option Selector) := separated ";" hyperchunk

/-- Requires the whole text to be read. -/
def complete (walk : Walk (Option α)) : Walk α := do
  match ← walk with
  | some value =>
    match ← token Token.endOfInput with
    | some _ => return value
    | none => throw (← get).reader.diagnosis
  | none => throw (← get).reader.diagnosis

/-- Reads the whole text as a selector, and reports that this begins and how it ended. -/
def reading : Walk Selector := do
  report (.began (utf8Length (← get).reader.text))
  let result ← observing (complete selector)
  report (.ofResult result)
  ofExcept result

end Walk

/-! ### What is told on the way -/

namespace Rule

variable {α β : Type}

/-- What is told of a match and of the place behind it. Nothing is told if the rule does not match. -/
def onMatch (rule : Rule α) (told : α → Cursor → List Event) (c : Cursor) : List Event :=
  match (rule c).verdict with
  | .matched v d => told v d
  | .noMatch | .invalid .. => []

variable {rule : Rule α} {told : α → Cursor → List Event} {c d : Cursor} {v : α}

theorem onMatch_of_matched (h : (rule c).verdict = .matched v d) : rule.onMatch told c = told v d := by
  simp only [onMatch, h]

theorem onMatch_of_not_matched (h : ∀ v d, (rule c).verdict ≠ .matched v d) : rule.onMatch told c = [] := by
  unfold onMatch
  split
  · rename_i v d matched
    exact absurd matched (h v d)
  · rfl
  · rfl

theorem onMatch_bind (next : α → Rule β) (told : β → Cursor → List Event) :
    (rule >>= next).onMatch told = rule.onMatch fun v => (next v).onMatch told := by
  funext c
  cases first : (rule c).verdict with
  | matched v d =>
    rw [onMatch_of_matched first, onMatch, onMatch, bind_of_matched first]
    rfl
  | noMatch => simp only [onMatch, bind_of_noMatch first, first]
  | invalid error d => simp only [onMatch, bind_of_invalid first, first]

/-- What the turns of a list tell, one after the other. The last of them is one that does not match. -/
def toldAlong (turn : Rule α) (told : Cursor → List Event) (c : Cursor) : List Event :=
  told c ++ turn.onMatch (fun _ d => if d.rest.length < c.rest.length then toldAlong turn told d else []) c
termination_by c.rest.length

/-- What the items of a list tell, one after the other. -/
def toldByList (separator : String) (item : Rule α) (told : Cursor → List Event) (c : Cursor) : List Event :=
  told c ++ item.onMatch (fun _ => toldAlong (do Token.symbol separator; item) ((Token.symbol separator).onMatch fun _ => told)) c

theorem toldAlong_of_matched {told : Cursor → List Event} (consumes : rule.Consumes) (h : (rule c).verdict = .matched v d) :
    rule.toldAlong told c = told c ++ rule.toldAlong told d := by
  rw [toldAlong, onMatch_of_matched h, if_pos (consumes _ _ _ h)]

theorem toldAlong_of_not_matched {told : Cursor → List Event} (h : ∀ v d, (rule c).verdict ≠ .matched v d) :
    rule.toldAlong told c = told c := by
  rw [toldAlong, onMatch_of_not_matched h, List.append_nil]

theorem onMatch_silent (rule : Rule α) : (rule.onMatch fun _ _ => []) = fun _ => [] := by
  funext c
  cases verdict : (rule c).verdict <;> simp only [onMatch, verdict]

theorem toldAlong_silent (consumes : rule.Consumes) : rule.toldAlong (fun _ => []) = fun _ => [] := by
  funext c
  induction c using many_induction consumes with
  | ends c stops => rw [toldAlong_of_not_matched stops]
  | goes c v d step ih => rw [toldAlong_of_matched consumes step, ih, List.append_nil]

theorem toldByList_silent {separator : String} (consumes : Consumes (do Token.symbol separator; rule)) :
    toldByList separator rule (fun _ => []) = fun _ => [] := by
  funext c
  rw [toldByList, onMatch_silent, toldAlong_silent consumes, onMatch_silent, List.append_nil]

end Rule

/-- A clause is told where the rule reads one. -/
def Grammar.toldByClause : Cursor → List Event := hyperchunk.onMatch fun clause _ => [.ofClause clause]

/-! ### Walks and rules -/

namespace Walk

variable {α β : Type}

/-- Takes a token, if it is there, and reports what is told at the place before it. -/
def noted (rule : Rule α) (told : Cursor → List Event) : Walk (Option α) := fun walker =>
  some ((walker.reader.attempt rule).1, ⟨(walker.reader.attempt rule).2, walker.log ++ told walker.reader.cursor⟩)

/-- A rule behind a mark. -/
def behind (mark : Cursor) (rule : Rule α) : Walk (Option α) := do
  match ← token rule with
  | some value => return some value
  | none => giveUp mark

section laws

variable {rule : Rule α} {told : Cursor → List Event}

@[simp] theorem pure_apply (value : α) (walker : Walker) : (pure value : Walk α) walker = some (.ok value, walker) := rfl

@[simp] theorem token_apply (rule : Rule α) (walker : Walker) : token rule walker =
    some ((walker.reader.attempt rule).1, { walker with reader := (walker.reader.attempt rule).2 }) := rfl

@[simp] theorem noted_apply (rule : Rule α) (told : Cursor → List Event) (walker : Walker) : noted rule told walker =
    some ((walker.reader.attempt rule).1, ⟨(walker.reader.attempt rule).2, walker.log ++ told walker.reader.cursor⟩) := rfl

@[simp] theorem giveUp_apply (mark : Cursor) (walker : Walker) : (giveUp mark : Walk (Option α)) walker =
    some (.ok none, { walker with reader := walker.reader.goTo mark }) := rfl

theorem report_bind_apply (event : Event) (next : Unit → Walk β) (walker : Walker) :
    (report event >>= next) walker = next () { walker with log := walker.log ++ [event] } := rfl

theorem bind_apply (walk : Walk α) (next : α → Walk β) (walker : Walker) : (walk >>= next) walker =
    match walk walker with
    | some (.ok value, there) => next value there
    | some (.error error, there) => some (.error error, there)
    | none => none := by
  change (walk walker).bind _ = _
  rcases walk walker with - | ⟨- | value, there⟩ <;> rfl

theorem get_bind_apply (next : Walker → Walk β) (walker : Walker) : (get >>= next) walker = next walker walker := rfl

theorem observing_apply (walk : Walk α) (walker : Walker) :
    observing walk walker = (walk walker).map fun (result, there) => (.ok result, there) := by
  change (((walk walker).bind _).bind _ : Option (Except SyntaxError (Except SyntaxError α) × Walker)) = _
  rcases walk walker with - | ⟨- | value, there⟩ <;> rfl

theorem ofExcept_apply (result : Except SyntaxError α) (walker : Walker) :
    (ofExcept result : Walk α) walker = some (result, walker) := by
  cases result <;> rfl

theorem place_bind_apply (next : Cursor → Walk β) (walker : Walker) :
    (place >>= next) walker = next walker.reader.cursor walker := rfl

theorem token_pure (value : α) : token (pure value) = pure (some value) := by
  funext walker
  change some (_, Walker.mk ⟨_, _, walker.reader.trail ++ .empty⟩ _) = _
  rw [Trail.append_empty]
  rfl

theorem token_bind (rule : Rule α) (next : α → Rule β) : token (rule >>= next) = (do
    let mark ← place
    match ← token rule with
    | some value => behind mark (next value)
    | none => return none) := by
  funext walker
  rw [place_bind_apply]
  cases first : (rule walker.reader.cursor).verdict with
  | matched v d =>
    cases second : (next v d).verdict <;> simp [bind_apply, Reader.attempt, Reader.goTo, behind, Rule.bind_of_matched first,
      Step.after, first, second, Trail.append_assoc]
  | noMatch => simp [bind_apply, Reader.attempt, Rule.bind_of_noMatch first, first]
  | invalid error d => simp [bind_apply, Reader.attempt, Rule.bind_of_invalid first, first]

theorem token_orElse (rule other : Rule α) : token (rule <|> other) = (do
    match ← token rule with
    | some value => return some value
    | none => token other) := by
  funext walker
  cases first : (rule walker.reader.cursor).verdict with
  | matched v d => simp [bind_apply, Reader.attempt, Rule.orElse_of_matched first, first]
  | noMatch =>
    cases second : (other walker.reader.cursor).verdict <;>
      simp [bind_apply, Reader.attempt, Rule.orElse_of_noMatch first, Step.after, first, second, Trail.append_assoc]
  | invalid error d => simp [bind_apply, Reader.attempt, Rule.orElse_of_invalid first, first]

theorem behind_pure (mark : Cursor) (value : α) : behind mark (pure value) = pure (some value) := by
  rw [behind, token_pure, pure_bind]

theorem behind_bind (mark : Cursor) (rule : Rule α) (next : α → Rule β) : behind mark (rule >>= next) = (do
    match ← token rule with
    | some value => behind mark (next value)
    | none => giveUp mark) := by
  rw [behind, token_bind]
  funext walker
  rw [bind_apply, place_bind_apply, bind_apply, bind_apply]
  cases first : (rule walker.reader.cursor).verdict with
  | matched v d =>
    cases second : (next v d).verdict <;> simp [bind_apply, Reader.attempt, Reader.goTo, behind, first, second]
  | noMatch => simp [Reader.attempt, Reader.goTo, first]
  | invalid error d => simp [Reader.attempt, first]

theorem noted_silent (rule : Rule α) : noted rule (fun _ => []) = token rule := by
  funext walker
  rw [noted_apply, token_apply, List.append_nil]

theorem noted_map (f : α → β) (rule : Rule α) (told : Cursor → List Event) :
    noted (f <$> rule) told = (return (← noted rule told).map f) := by
  funext walker
  rw [bind_apply]
  cases verdict : (rule walker.reader.cursor).verdict with
  | matched v d => simp [Reader.attempt, Rule.map_trail, Rule.map_of_matched verdict, verdict]
  | noMatch => simp [Reader.attempt, Rule.map_trail, Rule.map_of_noMatch verdict, verdict]
  | invalid error d => simp [Reader.attempt, Rule.map_trail, Rule.map_of_invalid verdict, verdict]

theorem token_map (f : α → β) (rule : Rule α) : token (f <$> rule) = (return (← token rule).map f) := by
  rw [← noted_silent, noted_map, noted_silent]

theorem token_optional (rule : Rule α) : token rule.optional = (return some (← token rule)) := by
  rw [Rule.optional, token_orElse, token_map, token_pure]
  simp only [bind_assoc, pure_bind]
  refine bind_congr fun given => ?_
  cases given <;> rfl

theorem symbol_bind (text : String) (next : Bool → Walk β) :
    (symbol text >>= next) = (token (Token.symbol text) >>= fun given => next given.isSome) := by
  simp only [symbol, bind_assoc, pure_bind]

theorem behind_symbol (mark : Cursor) (text : String) (next : Unit → Rule β) :
    behind mark (Token.symbol text >>= next) = (do if ← symbol text then behind mark (next ()) else giveUp mark) := by
  rw [behind_bind, symbol_bind]
  refine bind_congr fun given => ?_
  cases given <;> rfl

theorem behind_optional (mark : Cursor) (rule : Rule α) (next : Option α → Rule β) :
    behind mark (rule.optional >>= next) = (do behind mark (next (← token rule))) := by
  rw [behind_bind, token_optional]
  simp only [bind_assoc, pure_bind]

theorem token_optional_bind (rule : Rule α) (next : Option α → Rule β) : token (rule.optional >>= next) = (do
    let mark ← place
    behind mark (next (← token rule))) := by
  rw [token_bind, token_optional]
  simp only [bind_assoc, pure_bind]

theorem token_symbol (text : String) (next : Unit → Rule β) : token (Token.symbol text >>= next) = (do
    let mark ← place
    if ← symbol text then behind mark (next ()) else return none) := by
  rw [token_bind]
  refine bind_congr fun mark => ?_
  rw [symbol_bind]
  refine bind_congr fun given => ?_
  cases given <;> rfl

theorem place_bind_const (walk : Walk α) : (place >>= fun _ => walk) = walk := rfl

theorem token_map_orElse (f : α → β) (rule : Rule α) (other : Rule β) : token ((f <$> rule) <|> other) = (do
    match ← token rule with
    | some value => return some (f value)
    | none => token other) := by
  rw [token_orElse, token_map]
  simp only [bind_assoc, pure_bind]
  refine bind_congr fun given => ?_
  cases given <;> rfl

theorem token_symbol_orElse (text : String) (value : α) (other : Rule α) :
    token ((do Token.symbol text; return value) <|> other) = (do
      if ← symbol text then return some value else token other) := by
  rw [token_orElse, token_symbol]
  simp only [bind_assoc, behind_pure]
  rw [place_bind_const]
  refine bind_congr fun given => ?_
  cases given <;> rfl

/-- Where the first token is missing, there is nothing to give up yet. -/
theorem symbol_giveUp (text : String) (next : Cursor → Walk (Option β)) : (do
    let mark ← place
    if ← symbol text then next mark else giveUp mark) = (do
    let mark ← place
    if ← symbol text then next mark else return none) := by
  funext walker
  rw [place_bind_apply, place_bind_apply, symbol_bind, symbol_bind, bind_apply, bind_apply]
  cases first : (Token.symbol text walker.reader.cursor).verdict <;> simp [Reader.attempt, Reader.goTo, first]

theorem token_report (rule : Rule α) (event : α → Event) : (do
    match ← token rule with
    | some value =>
      report (event value)
      return some value
    | none => return none) = noted rule (rule.onMatch fun value _ => [event value]) := by
  funext walker
  rw [bind_apply]
  cases verdict : (rule walker.reader.cursor).verdict <;> simp [report_bind_apply, Reader.attempt, Rule.onMatch, verdict]

/-! ### Lists -/

variable {separator : String} {p : Phrase α}

theorem turn_eq (separator : String) (rule : Rule α) (told : Cursor → List Event) : turn separator (noted rule told) =
    noted (do Token.symbol separator; rule) ((Token.symbol separator).onMatch fun _ => told) := by
  funext walker
  rw [turn, place_bind_apply, symbol_bind, bind_apply]
  cases first : (Token.symbol separator walker.reader.cursor).verdict with
  | matched u d =>
    cases second : (rule d).verdict <;> simp [bind_apply, Reader.attempt, Reader.goTo, Rule.bind_of_matched first, Step.after,
      Rule.onMatch, first, second, Trail.append_assoc]
  | noMatch => simp [Reader.attempt, Rule.bind_of_noMatch first, Rule.onMatch, first]
  | invalid error d => simp [Reader.attempt, Rule.bind_of_invalid first, Rule.onMatch, first]

/-- The turns of a list end, for each of them is further on in the text. -/
theorem turns_eq (consumes : Rule.Consumes (do Token.symbol separator; rule)) (items : List α) :
    turns (noted rule told) separator items = (do
      match ← noted (Rule.many (do Token.symbol separator; rule))
        (Rule.toldAlong (do Token.symbol separator; rule) ((Token.symbol separator).onMatch fun _ => told)) with
      | some more => return items ++ more
      | none => return items) := by
  funext walker
  generalize place : walker.reader.cursor = c
  -- Along the matches of one turn, for any items read before.
  induction c using Rule.many_induction consumes generalizing walker items with
  | ends c stops =>
    subst place
    rw [turns, turn_eq, bind_apply, bind_apply, noted_apply, noted_apply, Rule.toldAlong_of_not_matched stops]
    cases step : ((do Token.symbol separator; rule : Rule α) walker.reader.cursor).verdict with
    | matched v d => exact absurd step (stops v d)
    | noMatch => simp [Reader.attempt, Rule.many_of_noMatch step, step]
    | invalid error d => simp [Reader.attempt, Rule.many_of_invalid step, step]
  | goes c v d step ih =>
    subst place
    rw [turns, turn_eq, bind_apply, bind_apply, noted_apply, noted_apply, Rule.toldAlong_of_matched consumes step]
    simp only [Reader.attempt, step]
    rw [ih _ _ rfl, bind_apply, noted_apply, Rule.many_of_matched consumes step]
    cases rest : (Rule.many (do Token.symbol separator; rule) d).verdict with
    | matched more e => simp [Reader.attempt, Step.after, rest, Rule.map_of_matched rest, Rule.map_trail, Trail.append_assoc]
    | noMatch => exact absurd rest Rule.many_ne_noMatch
    | invalid error e => simp [Reader.attempt, Step.after, rest, Rule.map_of_invalid rest, Rule.map_trail, Trail.append_assoc]

theorem separated_noted (consumes : Rule.Consumes (do Token.symbol separator; rule)) :
    separated separator (noted rule told) =
      noted (Rule.separated (Token.symbol separator) rule) (Rule.toldByList separator rule told) := by
  funext walker
  rw [Rule.separated_eq, separated, bind_apply, noted_apply, noted_apply, Rule.toldByList]
  cases first : (rule walker.reader.cursor).verdict with
  | matched v d =>
    simp only [Reader.attempt, first]
    rw [turns_eq consumes, bind_assoc, bind_apply, noted_apply, Rule.onMatch_of_matched first, Rule.bind_of_matched first]
    cases rest : (Rule.many (do Token.symbol separator; rule) d).verdict with
    | matched more e =>
      have whole : (pure (v :: more) : Rule (List α)) e = ⟨.matched (v :: more) e, .empty⟩ := rfl
      simp [Reader.attempt, Rule.bind_of_matched rest, Step.after, rest, whole, Trail.append_assoc]
    | noMatch => exact absurd rest Rule.many_ne_noMatch
    | invalid error e => simp [Reader.attempt, Rule.bind_of_invalid rest, Step.after, rest, Trail.append_assoc]
  | noMatch => simp [Reader.attempt, Rule.bind_of_noMatch first, Rule.onMatch, first]
  | invalid error d => simp [Reader.attempt, Rule.bind_of_invalid first, Rule.onMatch, first]

theorem turn_consumes (known : separator ∈ Terminal.symbols) (follows : Rule.Follows rule p) :
    Rule.Consumes (do Token.symbol separator; rule) := by
  have further : Rule.Follows (do Token.symbol separator; rule) (do Phrase.symbol separator; p) :=
    .bind (Grammar.symbol_follows known) fun _ => follows
  exact further.consumes (Phrase.solid_bind_left Phrase.solid_terminal)

/-- A list of items that report nothing reports nothing. -/
theorem separated_eq (known : separator ∈ Terminal.symbols) (follows : Rule.Follows rule p) :
    separated separator (token rule) = token (Rule.separated (Token.symbol separator) rule) := by
  have consumes : Rule.Consumes (do Token.symbol separator; rule) := turn_consumes known follows
  rw [← noted_silent, separated_noted consumes, Rule.toldByList_silent consumes, noted_silent]

end laws

/-! ### Each walk is its rule -/

theorem slice_eq : slice = token Grammar.slice := by
  rw [Grammar.slice, token_optional_bind]
  refine bind_congr fun mark => bind_congr fun start => ?_
  rw [behind_symbol]
  refine bind_congr fun colon => ?_
  cases colon with
  | false => rfl
  | true =>
    simp only [if_true, behind_optional, symbol_bind]
    refine bind_congr fun stop => bind_congr fun second => ?_
    cases second with
    | none => exact (behind_pure mark _).symm
    | some _ =>
      simp only [behind_optional, behind_pure]
      rfl

theorem dimension_eq : dimension = token Grammar.dimension := by
  rw [Grammar.dimension, token_map_orElse, token_symbol_orElse, token_map, dimension, slice_eq]
  refine bind_congr fun range => ?_
  cases range <;> rfl

theorem literal_eq : literal = token Grammar.literal := by
  rw [Grammar.literal, token_map_orElse, token_map, literal]
  refine bind_congr fun n => ?_
  cases n <;> rfl

theorem comparison_eq : comparison = token Grammar.comparison := by
  rw [Grammar.comparison, token_bind, comparison, literal_eq]
  refine bind_congr fun mark => bind_congr fun index => ?_
  cases index with
  | none => rfl
  | some index =>
    simp only [behind_bind, behind_pure]
    refine bind_congr fun op => ?_
    cases op with
    | none => rfl
    | some op =>
      refine bind_congr fun value => ?_
      cases value <;> rfl

theorem chain_eq {operand : Rule Condition} {p : Phrase Condition} (connective : Connective) (follows : Rule.Follows operand p) :
    chain connective (token operand) = token (Grammar.chain connective operand) := by
  rw [Grammar.chain, token_map, chain, separated_eq (Grammar.keyword_known connective) follows]

theorem conjunction_eq : conjunction = token (Grammar.chain .and (.comparison <$> Grammar.comparison)) := by
  rw [conjunction, comparison_eq, ← token_map, chain_eq .and (Grammar.comparison_follows.map _)]

theorem condition_eq : condition = token Grammar.condition := by
  rw [condition, conjunction_eq, chain_eq .or (Grammar.chain_follows .and (Grammar.comparison_follows.map _)), Grammar.condition]

theorem argument_eq : argument = token Grammar.argument := by
  rw [Grammar.argument, token_map_orElse, token_map_orElse, Token.number, token_map, token_map_orElse, token_map, argument]
  refine bind_congr fun index => ?_
  cases index with
  | some index => rfl
  | none =>
    refine bind_congr fun s => ?_
    cases s with
    | some s => rfl
    | none =>
      rw [bind_assoc]
      refine bind_congr fun x => ?_
      cases x with
      | some x => rfl
      | none =>
        simp only [bind_assoc, pure_bind, Option.map_map]
        rfl

theorem call_eq : call = token Grammar.call := by
  rw [Grammar.call, token_bind, call, argument_eq, separated_eq (by decide) Grammar.argument_follows]
  refine bind_congr fun mark => bind_congr fun name => ?_
  cases name with
  | none => rfl
  | some name =>
    simp only [behind_symbol, behind_optional, behind_pure]

theorem attributeItem_eq : attributeItem = token Grammar.attributeItem := by
  rw [Grammar.attributeItem, token_map_orElse, token_map_orElse, token_map_orElse, token_map, attributeItem, condition_eq, call_eq,
    dimension_eq]
  refine bind_congr fun filter => ?_
  cases filter with
  | some filter => rfl
  | none =>
    refine bind_congr fun function => ?_
    cases function with
    | some function => rfl
    | none =>
      refine bind_congr fun index => ?_
      cases index <;> rfl

theorem hyperslice_eq : hyperslice = token Grammar.hyperslice := by
  rw [hyperslice, dimension_eq, separated_eq (by decide) Grammar.dimension_follows, Grammar.hyperslice]

theorem alternatives_eq {rule : Rule α} {p : Phrase α} (follows : Rule.Follows rule p) :
    alternatives (token rule) = token (Grammar.alternatives rule) :=
  separated_eq (by decide) follows

theorem alternativesSection_eq {rule : Rule α} {p : Phrase α} (follows : Rule.Follows rule p) :
    alternativesSection (token rule) = token (do Token.symbol "/"; Grammar.alternatives rule) := by
  rw [token_symbol, ← symbol_giveUp, alternativesSection, alternatives_eq follows]
  refine bind_congr fun mark => bind_congr fun slash => if_congr Iff.rfl (bind_congr fun items => ?_) rfl
  cases items <;> rfl

theorem orderSection_eq : orderSection = token (do Token.symbol "/"; Token.symbol "order:"; Grammar.call) := by
  rw [token_symbol, ← symbol_giveUp, orderSection, call_eq]
  simp only [behind_symbol]
  refine bind_congr fun mark => bind_congr fun slash => if_congr Iff.rfl (bind_congr fun key => if_congr Iff.rfl ?_ rfl) rfl
  refine bind_congr fun order => ?_
  cases order <;> rfl

/-- Up to its report, a clause is read as the rule reads it. -/
theorem sections_eq : (do
    match ← alternatives dimension with
    | some arrays => return some (← sections arrays)
    | none => return none) = token Grammar.hyperchunk := by
  rw [Grammar.hyperchunk, token_bind, ← place_bind_const (alternatives dimension >>= _), dimension_eq,
    alternatives_eq Grammar.dimension_follows]
  refine bind_congr fun mark => bind_congr fun arrays => ?_
  cases arrays with
  | none => rfl
  | some arrays =>
    simp only [behind_optional, sections, attributeItem_eq, hyperslice_eq, orderSection_eq,
      alternativesSection_eq Grammar.attributeItem_follows, alternativesSection_eq Grammar.hyperslice_follows, bind_assoc]
    refine bind_congr fun attributes => ?_
    cases attributes with
    | none => exact (behind_pure mark _).symm
    | some attributes => simp only [behind_optional, behind_pure, bind_assoc, pure_bind]

theorem hyperchunk_eq : hyperchunk = noted Grammar.hyperchunk Grammar.toldByClause := by
  rw [Grammar.toldByClause, ← token_report, ← sections_eq, hyperchunk, bind_assoc]
  refine bind_congr fun arrays => ?_
  cases arrays with
  | none => rfl
  | some arrays => simp only [bind_assoc, pure_bind]

theorem selector_eq : selector = noted Grammar.selector (Rule.toldByList ";" Grammar.hyperchunk Grammar.toldByClause) := by
  rw [selector, hyperchunk_eq, separated_noted (turn_consumes (by decide) Grammar.hyperchunk_follows)]
  rfl

theorem complain_apply (walker : Walker) :
    (do throw (← get).reader.diagnosis : Walk α) walker = some (.error walker.reader.diagnosis, walker) := rfl

/-- Reading a whole text on foot ends, with what reading it by the rule comes to. Only the rule reports. -/
theorem complete_ofText (rule : Rule α) (told : Cursor → List Event) (text : String) (log : List Event) :
    ∃ reader, complete (noted rule told) ⟨.ofText text.toList, log⟩ =
      some (rule.readAll text, ⟨reader, log ++ told (.start text.toList)⟩) := by
  rw [complete, bind_apply, Rule.readAll, Step.result]
  simp only [noted_apply, Reader.attempt, Reader.ofText]
  cases first : (rule (.start text.toList)).verdict with
  | matched v d =>
    rw [Rule.bind_of_matched first]
    dsimp only
    rw [bind_apply, token_apply]
    cases ending : (Token.endOfInput d).verdict with
    | matched u e =>
      simp only [Reader.attempt, ending, Rule.bind_of_matched ending]
      exact ⟨_, rfl⟩
    | noMatch =>
      simp only [Reader.attempt, ending, Rule.bind_of_noMatch ending, complain_apply, Trail.empty_append]
      exact ⟨_, rfl⟩
    | invalid error e =>
      simp only [Reader.attempt, ending, Rule.bind_of_invalid ending]
      exact ⟨_, rfl⟩
  | noMatch =>
    rw [Rule.bind_of_noMatch first]
    simp only [complain_apply, Trail.empty_append]
    exact ⟨_, rfl⟩
  | invalid error d =>
    rw [Rule.bind_of_invalid first]
    exact ⟨_, rfl⟩

theorem complete_selector (text : String) (log : List Event) : ∃ reader, complete selector ⟨.ofText text.toList, log⟩ =
    some (Selector.parse text,
      ⟨reader, log ++ Rule.toldByList ";" Grammar.hyperchunk Grammar.toldByClause (.start text.toList)⟩) := by
  rw [selector_eq]
  exact complete_ofText Grammar.selector _ text log

/-! ### Progress -/

/-- The walk ends. If it comes to nothing, it is back where it began; if it comes to something, it has moved on and stands in the
text. -/
def Proceeds (walk : Walk (Option α)) (walker : Walker) : Prop :=
  ∃ result next, walk walker = some (result, next) ∧
    (result = .ok none → next.reader.cursor = walker.reader.cursor) ∧
    ∀ value, result = .ok (some value) →
      walker.reader.cursor.offset < next.reader.cursor.offset ∧ next.reader.cursor.In walker.reader.text

theorem noted_proceeds {rule : Rule α} {p : Phrase α} {walker : Walker} (follows : Rule.Follows rule p) (solid : p.Solid)
    (told : Cursor → List Event) (inside : walker.reader.cursor.In walker.reader.text) :
    (noted rule told).Proceeds walker := by
  refine ⟨_, _, noted_apply rule told walker, ?_, ?_⟩
  · intro missing
    exact (Reader.gives_of_noMatch (Reader.noMatch_of_none missing)).2
  · intro value found
    cases verdict : (rule walker.reader.cursor).verdict with
    | matched v d =>
      obtain ⟨ts, passes, read⟩ := follows.sound verdict
      rw [(Reader.gives_of_matched verdict).2]
      cases ts with
      | nil => exact absurd read (solid v)
      | cons t ts =>
        have further := passes.offset_lt (follows.lexemes read t List.mem_cons_self)
        have skipped := walker.reader.cursor.offset_le_skipBlanks
        exact ⟨by omega, passes.inside inside⟩
    | noMatch => cases (Reader.gives_of_noMatch verdict).1.symm.trans found
    | invalid error d => cases (Reader.gives_of_invalid verdict).1.symm.trans found

end Walk

/-! ### The whole grammar -/

/-- The rules of the grammar, lists of what any of them reads, and what is made of it. -/
inductive Production : Type → Type 1 where
  | slice : Production Slice
  | dimension : Production Dimension
  | comparison : Production Comparison
  /-- Comparisons joined by `and`. -/
  | conjunction : Production Condition
  | condition : Production Condition
  | argument : Production Argument
  | call : Production Call
  | attributeItem : Production Attribute
  | hyperslice : Production Hyperslice
  | attributesSection : Production (List Attribute)
  | orderSection : Production Call
  | hyperslicesSection : Production (List Hyperslice)
  | hyperchunk : Production Hyperchunk
  | selector : Production Selector
  | separated {α : Type} (separator : String) (known : separator ∈ Terminal.symbols) (item : Production α) :
    Production (List α)
  | map {α β : Type} (f : α → β) (item : Production α) : Production β

namespace Production

variable {α : Type}

def walk : {α : Type} → Production α → Walk (Option α)
  | _, slice => Walk.slice
  | _, dimension => Walk.dimension
  | _, comparison => Walk.comparison
  | _, conjunction => Walk.conjunction
  | _, condition => Walk.condition
  | _, argument => Walk.argument
  | _, call => Walk.call
  | _, attributeItem => Walk.attributeItem
  | _, hyperslice => Walk.hyperslice
  | _, attributesSection => Walk.alternativesSection Walk.attributeItem
  | _, orderSection => Walk.orderSection
  | _, hyperslicesSection => Walk.alternativesSection Walk.hyperslice
  | _, hyperchunk => Walk.hyperchunk
  | _, selector => Walk.selector
  | _, separated separator _ item => Walk.separated separator item.walk
  | _, map f item => return (← item.walk).map f

def rule : {α : Type} → Production α → Rule α
  | _, slice => Grammar.slice
  | _, dimension => Grammar.dimension
  | _, comparison => Grammar.comparison
  | _, conjunction => Grammar.chain .and (.comparison <$> Grammar.comparison)
  | _, condition => Grammar.condition
  | _, argument => Grammar.argument
  | _, call => Grammar.call
  | _, attributeItem => Grammar.attributeItem
  | _, hyperslice => Grammar.hyperslice
  | _, attributesSection => do Token.symbol "/"; Grammar.alternatives Grammar.attributeItem
  | _, orderSection => do Token.symbol "/"; Token.symbol "order:"; Grammar.call
  | _, hyperslicesSection => do Token.symbol "/"; Grammar.alternatives Grammar.hyperslice
  | _, hyperchunk => Grammar.hyperchunk
  | _, selector => Grammar.selector
  | _, separated separator _ item => Rule.separated (Token.symbol separator) item.rule
  | _, map f item => f <$> item.rule

/-- What the walk reports, from where it begins. -/
def told : {α : Type} → Production α → Cursor → List Event
  | _, hyperchunk => Grammar.toldByClause
  | _, selector => Rule.toldByList ";" Grammar.hyperchunk Grammar.toldByClause
  | _, separated separator _ item => Rule.toldByList separator item.rule item.told
  | _, map _ item => item.told
  | _, slice | _, dimension | _, comparison | _, conjunction | _, condition | _, argument | _, call | _, attributeItem
  | _, hyperslice | _, attributesSection | _, orderSection | _, hyperslicesSection => fun _ => []

/-- What a rule of the grammar reads has a terminal at least. -/
theorem exists_solid (production : Production α) : ∃ p : Phrase α, Rule.Follows production.rule p ∧ p.Solid := by
  have slash : Rule.Follows (Token.symbol "/") (Phrase.symbol "/") := Grammar.symbol_follows (by decide)
  have order : Rule.Follows (Token.symbol "order:") (Phrase.symbol "order:") := Grammar.symbol_follows (by decide)
  have comparisons : (Phrase.chain .and (.comparison <$> Phrase.comparison)).Solid :=
    Phrase.solid_map (Phrase.solid_list (Phrase.solid_map Grammar.comparison_solid))
  induction production with
  | slice => exact ⟨_, Grammar.slice_follows, Grammar.slice_solid⟩
  | dimension => exact ⟨_, Grammar.dimension_follows, Grammar.dimension_solid⟩
  | comparison => exact ⟨_, Grammar.comparison_follows, Grammar.comparison_solid⟩
  | conjunction => exact ⟨_, Grammar.chain_follows .and (Grammar.comparison_follows.map _), comparisons⟩
  | condition => exact ⟨_, Grammar.condition_follows, Phrase.solid_map (Phrase.solid_list comparisons)⟩
  | argument => exact ⟨_, Grammar.argument_follows, Grammar.argument_solid⟩
  | call => exact ⟨_, Grammar.call_follows, Phrase.solid_bind_left Phrase.solid_terminal⟩
  | attributeItem => exact ⟨_, Grammar.attributeItem_follows, Grammar.attributeItem_solid⟩
  | hyperslice => exact ⟨_, Grammar.hyperslice_follows, Grammar.hyperslice_solid⟩
  | attributesSection =>
    exact ⟨_, .bind slash fun _ => Grammar.alternatives_follows Grammar.attributeItem_follows,
      Phrase.solid_bind_left Phrase.solid_terminal⟩
  | orderSection =>
    exact ⟨_, .bind slash fun _ => .bind order fun _ => Grammar.call_follows, Phrase.solid_bind_left Phrase.solid_terminal⟩
  | hyperslicesSection =>
    exact ⟨_, .bind slash fun _ => Grammar.alternatives_follows Grammar.hyperslice_follows,
      Phrase.solid_bind_left Phrase.solid_terminal⟩
  | hyperchunk => exact ⟨_, Grammar.hyperchunk_follows, Grammar.hyperchunk_solid⟩
  | selector => exact ⟨_, Grammar.selector_follows, Phrase.solid_list Grammar.hyperchunk_solid⟩
  | separated separator known item ih =>
    obtain ⟨p, follows, solid⟩ := ih
    exact ⟨_, .separated (Grammar.symbol_follows known) Phrase.solid_terminal follows, Phrase.solid_list solid⟩
  | map f item ih =>
    obtain ⟨p, follows, solid⟩ := ih
    exact ⟨_, follows.map f, Phrase.solid_map solid⟩

theorem walk_eq (production : Production α) : production.walk = Walk.noted production.rule production.told := by
  induction production with
  | slice => exact Walk.slice_eq.trans (Walk.noted_silent _).symm
  | dimension => exact Walk.dimension_eq.trans (Walk.noted_silent _).symm
  | comparison => exact Walk.comparison_eq.trans (Walk.noted_silent _).symm
  | conjunction => exact Walk.conjunction_eq.trans (Walk.noted_silent _).symm
  | condition => exact Walk.condition_eq.trans (Walk.noted_silent _).symm
  | argument => exact Walk.argument_eq.trans (Walk.noted_silent _).symm
  | call => exact Walk.call_eq.trans (Walk.noted_silent _).symm
  | attributeItem => exact Walk.attributeItem_eq.trans (Walk.noted_silent _).symm
  | hyperslice => exact Walk.hyperslice_eq.trans (Walk.noted_silent _).symm
  | attributesSection =>
    rw [walk, Walk.attributeItem_eq, Walk.alternativesSection_eq Grammar.attributeItem_follows, rule, told, Walk.noted_silent]
  | orderSection => exact Walk.orderSection_eq.trans (Walk.noted_silent _).symm
  | hyperslicesSection =>
    rw [walk, Walk.hyperslice_eq, Walk.alternativesSection_eq Grammar.hyperslice_follows, rule, told, Walk.noted_silent]
  | hyperchunk => exact Walk.hyperchunk_eq
  | selector => exact Walk.selector_eq
  | separated separator known item ih =>
    obtain ⟨p, follows, -⟩ := item.exists_solid
    rw [walk, ih, Walk.separated_noted (Walk.turn_consumes known follows), rule, told]
  | map f item ih => rw [walk, ih, rule, told, Walk.noted_map]

theorem proceeds (production : Production α) {walker : Walker} (inside : walker.reader.cursor.In walker.reader.text) :
    production.walk.Proceeds walker := by
  obtain ⟨p, follows, solid⟩ := production.exists_solid
  rw [production.walk_eq]
  exact Walk.noted_proceeds follows solid _ inside

/-- A turn of a list that goes on takes its separator at least. -/
theorem turn_proceeds (production : Production α) {separator : String} (known : separator ∈ Terminal.symbols) {walker : Walker}
    (inside : walker.reader.cursor.In walker.reader.text) : (Walk.turn separator production.walk).Proceeds walker := by
  obtain ⟨p, follows, -⟩ := production.exists_solid
  rw [production.walk_eq, Walk.turn_eq]
  exact Walk.noted_proceeds (.bind (Grammar.symbol_follows known) fun _ => follows) (Phrase.solid_bind_left Phrase.solid_terminal)
    _ inside

/-- Wherever a reader has got to, and whatever was reported, every rule on foot comes to what the rule comes to there: it ends, and
restores its place or moves on. So does each turn of a list, and reading a whole selector on foot ends with what parsing it
gives. -/
theorem walk_proceeds (text : String) (moves : List Reader.Move) (log : List Event) (production : Production α) :
    let walker : Walker := ⟨(Reader.play text.toList moves).reader, log⟩
    production.walk walker = some ((walker.reader.attempt production.rule).1,
      ⟨(walker.reader.attempt production.rule).2, log ++ production.told walker.reader.cursor⟩) ∧
    production.walk.Proceeds walker ∧
    (∀ separator ∈ Terminal.symbols, (Walk.turn separator production.walk).Proceeds walker) ∧
    ∃ next, Walk.complete Walk.selector ⟨.ofText text.toList, log⟩ = some (Selector.parse text, next) := by
  intro walker
  have sound : (Reader.play text.toList moves).Sound text.toList := Reader.play_sound text.toList moves
  have inside : walker.reader.cursor.In walker.reader.text := sound.text_eq ▸ sound.cursor
  obtain ⟨reader, complete⟩ := Walk.complete_selector text log
  exact ⟨by rw [production.walk_eq, Walk.noted_apply], production.proceeds inside,
    fun separator known => production.turn_proceeds known inside, _, complete⟩

/-- A call without its closing parenthesis gives up the name and the argument that it took. -/
example : (Walk.call ⟨.ofText "f(1".toList, []⟩).map (·.2.reader.cursor) = some (.start "f(1".toList) := by
  rw [Walk.call_eq]
  rfl

end Production

end ChunkSelector
