import ChunkSelector.Command.Arguments

/-!
# Command line

Reads the standard input only where a request needs it.
-/

open ChunkSelector

/-- The standard input, unless it is a terminal. -/
def standardInput : IO Input := do
  let stdin ← IO.getStdin
  if ← stdin.isTty then return .terminal
  return .bytes (← stdin.readBinToEnd)

def main (arguments : List String) : IO UInt32 := do
  let environment ← IO.getEnv "HYPERCHUNKS_LOG"
  let input ← if readsInput arguments environment then standardInput else pure .terminal
  let outcome := runCommand arguments environment input
  IO.print outcome.output
  IO.eprint outcome.errors
  return outcome.code.toUInt32
