import ChunkSelector.Number.Binary64

/-!
# Literals

Integers and floats stay apart: `3` is an integer and `3.` a float. The test `==` compares
floats as numbers, so it tells apart less than equality does at zero and more at NaN.
-/

namespace ChunkSelector

inductive Number where
  | int (value : Int64)
  | float (value : Binary64)
  deriving BEq, DecidableEq

def Number.toBinary64 : Number → Binary64
  | .int n => .ofInt n.toInt
  | .float x => x

inductive Literal where
  | number (value : Number)
  | string (value : String)
  deriving BEq, DecidableEq

end ChunkSelector
