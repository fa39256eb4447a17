import ChunkSelector.Reading.Token

/-!
# Grammar

The rules of the selector language, from a slice up to a whole selector. Alternatives are
tried in order, and lists take as many items as they can.
-/

namespace ChunkSelector.Grammar

open Token

/-- `[int] ":" [int] [":" [int]]` -/
def slice : Rule Slice := do
  let start ← Rule.optional integer
  symbol ":"
  let stop ← Rule.optional integer
  match ← Rule.optional (symbol ":") with
  | some () => return ⟨start, stop, ← Rule.optional integer⟩
  | none => return ⟨start, stop, none⟩

/-- A slice, `...` or an index. The slice comes first, for an index may begin one. -/
def dimension : Rule Dimension :=
  (.slice <$> slice) <|> (do symbol "..."; return .ellipsis) <|> (.index <$> integer)

def literal : Rule Literal := (.number <$> number) <|> (.string <$> string)

/-- `attribute comparator literal` -/
def comparison : Rule Comparison := do
  let index ← attributeIndex
  let op ← comparator
  return ⟨index, op, ← literal⟩

def chain (connective : Connective) (operand : Rule Condition) : Rule Condition :=
  .ofOperands connective <$> Rule.separated (symbol connective.keyword) operand

/-- Comparisons joined by `and` in groups that are joined by `or`. -/
def condition : Rule Condition := chain .or (chain .and (.comparison <$> comparison))

def argument : Rule Argument :=
  (.index <$> attributeIndex) <|> (.string <$> string) <|> (.number <$> number)

/-- `name "(" [argument ("," argument)*] ")"` -/
def call : Rule Call := do
  let name ← identifier
  symbol "("
  let arguments ← Rule.optional (Rule.separated (symbol ",") argument)
  symbol ")"
  return ⟨name, arguments.getD []⟩

/-- A condition, a call, an attribute index or a dimension. The index comes after the others that
it may begin. -/
def attributeItem : Rule Attribute :=
  (.condition <$> condition) <|> (.call <$> call) <|> (.index <$> attributeIndex)
    <|> (.dimension <$> dimension)

def hyperslice : Rule Hyperslice := Rule.separated (symbol ",") dimension

def alternatives (item : Rule α) : Rule (List α) := Rule.separated (symbol "|") item

/-- `arrays ["/" attributes ["/" "order:" call] ["/" hyperslices]]` -/
def hyperchunk : Rule Hyperchunk := do
  let arrays ← alternatives dimension
  match ← Rule.optional (do symbol "/"; alternatives attributeItem) with
  | none => return ⟨arrays, none, none, none⟩
  | some attributes =>
    let order ← Rule.optional (do symbol "/"; symbol "order:"; call)
    let hyperslices ← Rule.optional (do symbol "/"; alternatives hyperslice)
    return ⟨arrays, some attributes, order, hyperslices⟩

/-- The clauses of a selector, separated by semicolons. -/
def clauses : Cursor → Rule.Run Hyperchunk := Rule.run (symbol ";") hyperchunk

def selector : Rule Selector := fun c => (clauses c).toStep

end ChunkSelector.Grammar
