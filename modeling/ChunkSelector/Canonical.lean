import ChunkSelector.Hyperchunk
import ChunkSelector.Number.Layout
import ChunkSelector.Text.Quoted

/-!
# Canonical text

Every node has one canonical text: blanks only around comparators and connectives and between
the arguments of a call, no parentheses, and a point in every float, so that it does not come
back as an integer.
-/

namespace ChunkSelector

/-- Decimal digits, after a minus sign where there is one. -/
def integerText : Int → List Char
  | .ofNat n => Nat.toDigits 10 n
  | .negSucc n => '-' :: Nat.toDigits 10 (n + 1)

/-- The fewest digits that read back, in positional form; of two equally near, the greater. -/
def Binary64.canonical (x : Binary64) : List Char :=
  if x.isNaN then "NaN.0".toList
  else
    let sign := if x.negative then ['-'] else []
    sign ++ if x.isFinite then (Decimal.shortest .up x).positional else "inf.0".toList

def Number.canonical : Number → List Char
  | .int n => integerText n.toInt
  | .float x => x.canonical

def Literal.canonical : Literal → List Char
  | .number n => n.canonical
  | .string s => Quoted.literal s.toList

def AttributeIndex.canonical (i : AttributeIndex) : List Char := 'a' :: Nat.toDigits 10 i.toNat

/-! ### Dimensions -/

/-- A part that is not written leaves nothing. -/
def optionalInteger : Option Int64 → List Char
  | some n => integerText n.toInt
  | none => []

/-- The second colon is written only before a step. -/
def Slice.canonical (s : Slice) : List Char :=
  optionalInteger s.start ++ ':' :: optionalInteger s.stop ++
    match s.step with
    | some n => ':' :: integerText n.toInt
    | none => []

def Dimension.canonical : Dimension → List Char
  | .slice range => range.canonical
  | .ellipsis => "...".toList
  | .index n => integerText n.toInt

def Hyperslice.canonical (h : Hyperslice) : List Char :=
  [','].intercalate (h.map Dimension.canonical)

/-! ### Attributes -/

def Comparison.canonical (c : Comparison) : List Char :=
  c.index.canonical ++ ' ' :: c.comparator.symbol.toList ++ ' ' :: c.value.canonical

mutual

/-- A chain writes its keyword between its operands. -/
def Condition.canonical : Condition → List Char
  | .comparison test => test.canonical
  | .chain connective operands =>
    (' ' :: connective.keyword.toList ++ [' ']).intercalate (Condition.canonicalAll operands)

def Condition.canonicalAll : List Condition → List (List Char)
  | [] => []
  | first :: more => first.canonical :: Condition.canonicalAll more

end

def Argument.canonical : Argument → List Char
  | .index i => i.canonical
  | .string s => Quoted.literal s.toList
  | .number n => n.canonical

def Call.canonical (c : Call) : List Char :=
  c.name.toList ++ '(' :: [',', ' '].intercalate (c.arguments.map Argument.canonical) ++ [')']

def Attribute.canonical : Attribute → List Char
  | .condition filter => filter.canonical
  | .call function => function.canonical
  | .index i => i.canonical
  | .dimension selected => selected.canonical

/-! ### Clauses -/

/-- A section with a slash before it, or nothing. -/
def sectionText (write : α → List Char) : Option α → List Char
  | some content => '/' :: write content
  | none => []

def alternativesText (write : α → List Char) (items : List α) : List Char :=
  ['|'].intercalate (items.map write)

def Hyperchunk.canonical (h : Hyperchunk) : List Char :=
  alternativesText Dimension.canonical h.arrays
    ++ sectionText (alternativesText Attribute.canonical) h.attributes
    ++ sectionText (fun call => "order:".toList ++ call.canonical) h.order
    ++ sectionText (alternativesText Hyperslice.canonical) h.hyperslices

def Selector.canonical (s : Selector) : List Char :=
  [';'].intercalate (s.map Hyperchunk.canonical)

def Selector.text (s : Selector) : String := .ofList s.canonical

end ChunkSelector
