import ChunkSelector.Reading

/-!
# Events

The events of one reading: that it begins, each clause that was read, and how it ended. A clause
counts also when a later one is refused.
-/

namespace ChunkSelector

inductive Event where
  /-- Reading a text of this many bytes begins. -/
  | began (length : Nat)
  /-- A clause was read: the sizes of its sections, zero for one that is not written. -/
  | clause (arrays attributes : Nat) (hasOrder : Bool) (hyperslices : Nat)
  | accepted (count : Nat)
  | refused (error : SyntaxError)
  deriving DecidableEq

namespace Event

inductive Level where
  | debug
  | trace
  deriving DecidableEq

def level : Event → Level
  | .clause .. => .trace
  | .began _ | .accepted _ | .refused _ => .debug

def message : Event → String
  | .began _ => "parsing hyperchunks"
  | .clause .. => "parsed hyperchunk"
  | .accepted _ => "parsed hyperchunks"
  | .refused _ => "rejected hyperchunks"

def ofClause (h : Hyperchunk) : Event :=
  .clause h.arrays.length (h.attributes.elim 0 List.length) h.order.isSome
    (h.hyperslices.elim 0 List.length)

def ofResult : Except SyntaxError Selector → Event
  | .ok s => .accepted s.length
  | .error e => .refused e

/-- The events of reading a text as a selector, in order. -/
def ofReading (text : String) : List Event :=
  let clauses := (Grammar.clauses (.start text.toList)).items
  .began (utf8Length text.toList) :: (clauses.map ofClause ++ [ofResult (Selector.parse text)])

end Event

end ChunkSelector
