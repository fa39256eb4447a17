/-!
# Dimensions

What is selected along one dimension: a slice, one index, or all remaining dimensions.
A hyperslice holds one dimension after the other.
-/

namespace ChunkSelector

/-- `start:stop:step`. A part that is not written is `none`; no step means a step of one. -/
structure Slice where
  start : Option Int64
  stop : Option Int64
  step : Option Int64
  deriving DecidableEq

inductive Dimension where
  | slice (range : Slice)
  /-- All remaining dimensions. -/
  | ellipsis
  | index (position : Int64)
  deriving DecidableEq

/-- One dimension after the other. -/
abbrev Hyperslice := List Dimension

end ChunkSelector
