/-!
# The manual

One page for each topic, and an overview that lists them. A topic answers to several names.
-/

namespace ChunkSelector.Manual

inductive Topic where
  | sections
  | selectors
  | attributes
  | literals
  deriving DecidableEq

namespace Topic

def all : List Topic := [sections, selectors, attributes, literals]

/-- The names of a topic, in lower case. -/
def names : Topic → List String
  | sections => ["sections", "section", "syntax"]
  | selectors => ["selectors", "selector", "slices", "hyperslices"]
  | attributes => ["attributes", "attribute", "expressions", "order"]
  | literals => ["literals", "literal", "numbers", "strings"]

/-- The topic of a name in any case. No name holds a letter that is the lower case of one outside
ASCII, so ASCII case is all that matters. -/
def ofName? (name : String) : Option Topic :=
  let lowered := String.ofList (name.toList.map Char.toLower)
  all.find? fun topic => topic.names.contains lowered

end Topic

/-! ### Pages -/

/-- Lines, each with its line feed. -/
def unlines (lines : List String) : String := String.join (lines.map (· ++ "\n"))

def sectionsPage : List String :=
  [ "SECTIONS - Layout of a Hyperchunk",
    "",
    "  arrays [/ attributes [/ order:function(...)] [/ hyperslices]]",
    "",
    "ARRAYS",
    "  One or more dimension selectors separated by '|'. Mandatory.",
    "",
    "    0:5|7         Arrays 0..5 and array 7",
    "",
    "ATTRIBUTES",
    "  One or more attribute expressions separated by '|'. When absent, all",
    "  attributes are selected.",
    "",
    "    0/a0|a2       Attributes 0 and 2 of array 0",
    "",
    "ORDER",
    "  A function call prefixed with 'order:'. Only allowed after attributes.",
    "",
    "    0/a0/order:rank(a0, \"desc\")",
    "",
    "HYPERSLICES",
    "  One or more hyperslices separated by '|'. Only allowed after attributes.",
    "  When absent, the full extent of each chunk is selected.",
    "",
    "    0/a0/0:10|20:30",
    "",
    "SEQUENCES",
    "  Hyperchunks are separated by ';' and processed in order.",
    "",
    "    0/a0;1/a1",
    "",
    "  Empty sections are errors: '0//a0', '0/a0/' and '0;' are all rejected." ]

def selectorsPage : List String :=
  [ "SELECTORS - Ranges, Indices and Hyperslices",
    "",
    "RANGE",
    "  start:stop[:step]",
    "    Any component may be empty. A missing step means a step of 1.",
    "",
    "    0:5           Indices 0 through 4",
    "    :10           Up to index 10",
    "    ::2           Every second index",
    "    1:5:          Same as 1:5",
    "",
    "EXACT INDEX",
    "  A bare integer selects one index, not a range.",
    "",
    "    3",
    "    -1",
    "",
    "ELLIPSIS",
    "  ...",
    "    All remaining dimensions.",
    "",
    "HYPERSLICE",
    "  One selector per dimension, separated by ','.",
    "",
    "    0:10,...      First ten rows, every remaining dimension",
    "    2,0:5,::2" ]

def attributesPage : List String :=
  [ "ATTRIBUTES - Attribute Expressions",
    "",
    "ATTRIBUTE INDEX",
    "  a<digits>",
    "    Position of an attribute.",
    "",
    "    a0",
    "    a12",
    "",
    "COMPARISON",
    "  attribute comparator literal",
    "    Comparators: == != < > <= >=",
    "",
    "    a0 >= 3.5",
    "    a2 == \"label\"",
    "",
    "LOGICAL EXPRESSIONS",
    "  Comparisons joined with 'and' / 'or'. 'and' binds tighter than 'or'",
    "  and both group left to right. Parentheses are not supported.",
    "",
    "    a0 >= 1 or a1 < 2 and a2 == 3",
    "      is  a0 >= 1 or (a1 < 2 and a2 == 3)",
    "",
    "FUNCTION CALLS",
    "  name(argument, ...)",
    "    Arguments are attribute indices, numbers or strings.",
    "",
    "    now()",
    "    top(a0, 5)",
    "",
    "DIMENSION SELECTORS",
    "  A range, index or ellipsis is also accepted in attribute position.",
    "",
    "RESOLUTION ORDER",
    "  Each alternative is tried as a logical expression, then a function call,",
    "  then a bare attribute index, then a dimension selector." ]

def literalsPage : List String :=
  [ "LITERALS - Numbers and Strings",
    "",
    "INTEGERS",
    "  [-]digits without leading zeros, or 0.",
    "",
    "    42  -7  0       valid",
    "    007 -0          invalid",
    "",
    "FLOATS",
    "  A decimal point is required; there is no exponent notation.",
    "",
    "    3.5  -.25  007.5  3.      valid",
    "    -3.                       invalid (the trailing-point form takes no sign)",
    "",
    "  '3' is always an integer, '3.' always a float.",
    "",
    "STRINGS",
    "  Double quoted. A backslash escapes the next character; \\n \\t \\r \\f are",
    "  control characters. Strings cannot span lines.",
    "",
    "    \"x;y\"",
    "    \"say \\\"hi\\\"\"" ]

/-- The lines that list the topics. -/
def overviewPage : List String :=
  [ "HYPERCHUNKS DOCUMENTATION",
    "",
    "A hyperchunk selector names which arrays participate, which attributes are of",
    "interest, how results are ordered, and which sub-ranges of each chunk to",
    "extract. Only the arrays section is mandatory.",
    "",
    "DOCUMENTATION CATEGORIES",
    "",
    "  sections          Layout of a hyperchunk: arrays / attributes / order / hyperslices",
    "  selectors         Ranges, exact indices, ellipsis and hyperslices",
    "  attributes        Attribute indices, comparisons, and/or, function calls",
    "  literals          Integers, floats and strings",
    "",
    "QUICK REFERENCE",
    "",
    "  0:5               Arrays 0 through 4",
    "  0|3|7             Three array alternatives",
    "  0/a1              Attribute 1 of array 0",
    "  0/a0 > 2 and a1 < 5",
    "                    Rows matching a filter",
    "  0/a0/order:rank(a0)",
    "                    Ordered by a function",
    "  0/a0/0:10,...     First ten rows, all remaining dimensions",
    "  0/a0;1/a1         Two hyperchunks, processed in order",
    "",
    "Run 'hyperchunks doc <category>' for detailed documentation." ]

def Topic.page : Topic → String
  | sections => unlines sectionsPage
  | selectors => unlines selectorsPage
  | attributes => unlines attributesPage
  | literals => unlines literalsPage

def overview : String := unlines overviewPage

end ChunkSelector.Manual
