import ChunkSelector.Literal

/-!
# Conditions

A condition compares attributes with literals and joins comparisons with `and` and `or`.
A run of one connective is one flat chain: `Condition.and` and `Condition.or` extend a chain
of their own connective on the left and otherwise begin a new one.
-/

namespace ChunkSelector

/-- The position of an attribute, written `a` and digits. -/
abbrev AttributeIndex := UInt64

inductive Comparator where
  | equal
  | notEqual
  | less
  | greater
  | lessEqual
  | greaterEqual
  deriving DecidableEq

namespace Comparator

def symbol : Comparator → String
  | equal => "=="
  | notEqual => "!="
  | less => "<"
  | greater => ">"
  | lessEqual => "<="
  | greaterEqual => ">="

/-- Every comparator, one that begins another after it, so that the first that fits is the
longest. -/
def all : List Comparator := [equal, greaterEqual, lessEqual, notEqual, less, greater]

end Comparator

/-- `and` binds tighter than `or`. -/
inductive Connective where
  | and
  | or
  deriving DecidableEq

def Connective.keyword : Connective → String
  | and => "and"
  | or => "or"

structure Comparison where
  index : AttributeIndex
  comparator : Comparator
  value : Literal
  deriving BEq, DecidableEq

inductive Condition where
  | comparison (test : Comparison)
  /-- Operands joined by one connective, in order. -/
  | chain (connective : Connective) (operands : List Condition)

namespace Condition

/-- `left connective right`, where a chain of that connective on the left grows by one operand. -/
def join (connective : Connective) (left right : Condition) : Condition :=
  match left with
  | .chain c operands =>
    if c = connective then .chain c (operands ++ [right]) else .chain connective [left, right]
  | .comparison _ => .chain connective [left, right]

def and (left right : Condition) : Condition := join .and left right

def or (left right : Condition) : Condition := join .or left right

/-- One operand stands for itself, more become a chain. -/
def ofOperands (connective : Connective) : List Condition → Condition
  | [only] => only
  | operands => .chain connective operands

/-! ### Comparing conditions -/

mutual

/-- Same shape, and same comparisons in the sense of `==`. -/
def same : Condition → Condition → Bool
  | .comparison a, .comparison b => a == b
  | .chain c xs, .chain d ys => c == d && sameAll xs ys
  | _, _ => false

def sameAll : List Condition → List Condition → Bool
  | [], [] => true
  | x :: xs, y :: ys => same x y && sameAll xs ys
  | _, _ => false

end

instance : BEq Condition := ⟨same⟩

end Condition

end ChunkSelector
