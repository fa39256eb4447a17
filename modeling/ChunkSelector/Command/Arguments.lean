import ChunkSelector.Command.Request

/-!
# Arguments

`Request.ofArguments` reads a command line from left to right; the first argument that settles it
does so at once. Options may stand before the subcommand or after it, and `--` ends them.
-/

namespace ChunkSelector

/-! ### Levels -/

/-- A number of 64 bits, with an optional plus sign. -/
def unsigned? (text : List Char) : Option Nat :=
  let digits := match text with
    | '+' :: rest => rest
    | _ => text
  if digits.isEmpty || !digits.all Char.isDigit then none
  else
    let n := Nat.ofDigitChars 10 digits 0
    if n < UInt64.size then some n else none

/-- The names of the levels, in lower case. No name at all means errors only. -/
def levelNames : List String := ["", "off", "error", "warn", "info", "debug", "trace"]

/-- A level of the log: a name in any case, or its number. -/
def isLevel (text : String) : Bool :=
  levelNames.contains (.ofList (text.toList.map Char.toLower)) ||
    (unsigned? text.toList).any (· ≤ 5)

/-! ### Subcommands -/

inductive Subcommand where
  | check
  | format
  | docs
  | doc
  deriving DecidableEq

inductive Flag where
  | pretty
  | syntaxOnly
  deriving DecidableEq

namespace Subcommand

def ofName? : String → Option Subcommand
  | "check" => some check
  | "format" => some format
  | "docs" => some docs
  | "doc" => some doc
  | _ => none

def longFlag? : Subcommand → String → Option Flag
  | check, "--pretty" => some .pretty
  | check, "--syntax-only" => some .syntaxOnly
  | _, _ => none

def shortFlag? : Subcommand → Char → Option Flag
  | check, 'p' => some .pretty
  | _, _ => none

def maxOperands : Subcommand → Nat
  | docs => 0
  | check | format | doc => 1

end Subcommand

/-! ### Reading arguments -/

/-- Why a command line asks for nothing to be performed. -/
inductive Stop where
  | usage
  | version
  | help
  deriving DecidableEq

/-- What a command line has given so far, after its subcommand. -/
structure Given where
  hasLevel : Bool
  flags : List Flag
  operands : List String

namespace Given

def nothing : Given := ⟨false, [], []⟩

/-- A level may be given once, and has to be one. -/
def addLevel (g : Given) (level : String) : Except Stop Given :=
  if g.hasLevel || !isLevel level then .error .usage else .ok { g with hasLevel := true }

/-- A flag may be given once, if there is such a flag. -/
def addFlag (g : Given) : Option Flag → Except Stop Given
  | some flag =>
    if g.flags.contains flag then .error .usage else .ok { g with flags := g.flags ++ [flag] }
  | none => .error .usage

def addOperand (sub : Subcommand) (g : Given) (operand : String) : Except Stop Given :=
  if g.operands.length < sub.maxOperands then .ok { g with operands := g.operands ++ [operand] }
  else .error .usage

/-- One letter of a cluster such as `-p`. -/
def addLetter (sub : Subcommand) (g : Given) (letter : Char) : Except Stop Given :=
  if letter = 'h' then .error .help else g.addFlag (sub.shortFlag? letter)

end Given

/-- The text after `--log-level=`. -/
def attachedLevel? (argument : String) : Option String :=
  let name := "--log-level=".toList
  if name.isPrefixOf argument.toList then some (.ofList (argument.toList.drop name.length))
  else none

def Given.addArgument (sub : Subcommand) (g : Given) (argument : String) : Except Stop Given :=
  match attachedLevel? argument with
  | some level => g.addLevel level
  | none =>
    match argument.toList with
    | '-' :: '-' :: _ =>
      if argument = "--help" then .error .help else g.addFlag (sub.longFlag? argument)
    | '-' :: letter :: letters => (letter :: letters).foldlM (Given.addLetter sub) g
    | _ => g.addOperand sub argument

def readGiven (sub : Subcommand) (g : Given) : List String → Except Stop Given
  | [] => .ok g
  | ["--log-level"] => .error .usage
  | "--" :: operands => operands.foldlM (Given.addOperand sub) g
  | "--log-level" :: level :: rest => do readGiven sub (← g.addLevel level) rest
  | argument :: rest => do readGiven sub (← g.addArgument sub argument) rest

def requestOf (g : Given) : Subcommand → Except Stop Request
  | .check =>
    let style := if g.flags.contains .pretty then .indented else .compact
    .ok (.check g.operands.head? style (g.flags.contains .syntaxOnly))
  | .format => .ok (.format g.operands.head?)
  | .docs => .ok .listTopics
  | .doc =>
    match g.operands.head? with
    | some name => .ok (.showTopic name)
    | none => .error .usage

/-- The arguments up to the subcommand, and then those after it. The level of the environment
counts at either place where no level is given, and has to be one there. -/
def readArguments (environment : Option String) (before : Given) :
    List String → Except Stop Request
  | [] => .error .usage
  | ["--log-level"] => .error .usage
  | "--log-level" :: level :: rest => do
    readArguments environment (← before.addLevel level) rest
  | argument :: rest =>
    match attachedLevel? argument with
    | some level => do readArguments environment (← before.addLevel level) rest
    | none =>
      match argument.toList with
      | '-' :: 'V' :: _ => .error .version
      | '-' :: 'h' :: _ => .error .help
      | _ =>
        if argument = "--version" then .error .version
        else if argument = "--help" || argument = "help" then .error .help
        else
          match Subcommand.ofName? argument with
          | none => .error .usage
          | some sub => do
            let after ← readGiven sub .nothing rest
            if (before.hasLevel && after.hasLevel) || environment.all isLevel then
              requestOf after sub
            else .error .usage

/-- The request of a command line, with the level that the environment names. -/
def Request.ofArguments (arguments : List String) (environment : Option String) :
    Except Stop Request :=
  readArguments environment .nothing arguments

/-! ### Running -/

def usageText : String :=
  "Usage: hyperchunks [--log-level LEVEL] check [SELECTOR] [-p|--pretty] [--syntax-only]\n"
    ++ "       hyperchunks [--log-level LEVEL] format [SELECTOR]\n"
    ++ "       hyperchunks [--log-level LEVEL] docs\n"
    ++ "       hyperchunks [--log-level LEVEL] doc CATEGORY\n"

def Stop.outcome : Stop → Outcome
  | version => ⟨0, "hyperchunks 0.2.0\n", ""⟩
  | help => ⟨0, usageText, ""⟩
  | usage => ⟨2, "", usageText⟩

/-- A run of the program will look at the standard input. -/
def readsInput (arguments : List String) (environment : Option String) : Bool :=
  match Request.ofArguments arguments environment with
  | .ok request => request.readsInput
  | .error _ => false

def runCommand (arguments : List String) (environment : Option String) (input : Input) : Outcome :=
  match Request.ofArguments arguments environment with
  | .ok request => request.perform input
  | .error stop => stop.outcome

end ChunkSelector
