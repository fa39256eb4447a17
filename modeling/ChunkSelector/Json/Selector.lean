import ChunkSelector.Json

/-!
# Selectors as JSON

Each node becomes a string, or an object whose members are in alphabetical order. A section
that is not written becomes null.
-/

namespace ChunkSelector

/-- An object with one member. -/
def Json.tagged (tag : String) (value : Json) : Json := .object [(tag, value)]

/-- A value, or null for none. -/
def Json.ofOption (encode : α → Json) : Option α → Json
  | some value => encode value
  | none => .null

def Number.toJson : Number → Json
  | .int n => .tagged "int" (.int n.toInt)
  | .float x => .tagged "float" (.float x)

def Literal.toJson : Literal → Json
  | .number n => n.toJson
  | .string s => .tagged "string" (.string s)

def AttributeIndex.toJson (i : AttributeIndex) : Json := .tagged "attribute" (.int i.toNat)

def Slice.toJson (s : Slice) : Json :=
  let part := Json.ofOption fun n : Int64 => .int n.toInt
  .tagged "slice" (.object [("start", part s.start), ("step", part s.step), ("stop", part s.stop)])

def Dimension.toJson : Dimension → Json
  | .slice range => range.toJson
  | .ellipsis => .string "ellipsis"
  | .index n => .tagged "index" (.int n.toInt)

def Hyperslice.toJson (h : Hyperslice) : Json := .array (h.map Dimension.toJson)

def Comparison.toJson (c : Comparison) : Json :=
  .tagged "comparison" (.object
    [("attribute", .int c.index.toNat), ("op", .string c.comparator.symbol),
      ("value", c.value.toJson)])

mutual

/-- A chain goes by its keyword. -/
def Condition.toJson : Condition → Json
  | .comparison test => test.toJson
  | .chain connective operands =>
    .tagged connective.keyword (.array (Condition.toJsonAll operands))

/-- The values of operands. -/
def Condition.toJsonAll : List Condition → List Json
  | [] => []
  | first :: more => first.toJson :: Condition.toJsonAll more

end

def Argument.toJson : Argument → Json
  | .index i => i.toJson
  | .string s => .tagged "string" (.string s)
  | .number n => n.toJson

def Call.toJson (c : Call) : Json :=
  .tagged "call" (.object
    [("args", .array (c.arguments.map Argument.toJson)), ("name", .string c.name)])

def Attribute.toJson : Attribute → Json
  | .condition filter => filter.toJson
  | .call function => function.toJson
  | .index i => i.toJson
  | .dimension selected => selected.toJson

def Hyperchunk.toJson (h : Hyperchunk) : Json :=
  .object
    [("arrays", .array (h.arrays.map Dimension.toJson)),
      ("attributes", .ofOption (fun items => .array (items.map Attribute.toJson)) h.attributes),
      ("hyperslices", .ofOption (fun items => .array (items.map Hyperslice.toJson)) h.hyperslices),
      ("order", .ofOption Call.toJson h.order)]

def Selector.toJson (s : Selector) : Json := .array (s.map Hyperchunk.toJson)

end ChunkSelector
