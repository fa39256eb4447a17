import ChunkSelector.Event
import ChunkSelector.Json

/-!
# Events as JSON

An event becomes an object of its level, its message and its own fields.
-/

namespace ChunkSelector.Event

def Level.name : Level → String
  | debug => "DEBUG"
  | trace => "TRACE"

/-- What an event tells beyond its message. -/
def fields : Event → List (String × Json)
  | .began length => [("length", .int length)]
  | .clause arrays attributes hasOrder hyperslices =>
    [("arrays", .int arrays), ("attributes", .int attributes), ("has_order", .bool hasOrder),
      ("hyperslices", .int hyperslices)]
  | .accepted count => [("count", .int count)]
  | .refused error => [("offset", .int error.offset), ("error", .string error.message)]

def toJson (e : Event) : Json :=
  .object ([("level", .string e.level.name), ("message", .string e.message)] ++ e.fields)

end ChunkSelector.Event
