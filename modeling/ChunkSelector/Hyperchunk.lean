import ChunkSelector.Condition
import ChunkSelector.Dimension

/-!
# Hyperchunks

A hyperchunk is one clause of a selector: alternatives of arrays and, where they are given,
of attributes and of hyperslices, with an order on the results. A `Selector` lists its
clauses in processing order.
-/

namespace ChunkSelector

inductive Argument where
  | index (position : AttributeIndex)
  | string (value : String)
  | number (value : Number)
  deriving BEq, DecidableEq

/-- `name(argument, …)`. -/
structure Call where
  name : String
  arguments : List Argument
  deriving BEq, DecidableEq

/-- One alternative of the attributes section. -/
inductive Attribute where
  | condition (filter : Condition)
  | call (function : Call)
  | index (position : AttributeIndex)
  | dimension (selected : Dimension)
  deriving BEq

/-- One clause. A section that is not written is `none`. -/
structure Hyperchunk where
  arrays : List Dimension
  attributes : Option (List Attribute)
  order : Option Call
  hyperslices : Option (List Hyperslice)
  deriving BEq

/-- Clauses in processing order. -/
abbrev Selector := List Hyperchunk

end ChunkSelector
