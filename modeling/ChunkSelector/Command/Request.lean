import ChunkSelector.Json.Selector
import ChunkSelector.Manual
import ChunkSelector.Reading

/-!
# Requests

What the program can be asked for, and how it answers: `Request.perform` needs no more than the
request and what is on the standard input.
-/

namespace ChunkSelector

/-- Why a request fails. -/
inductive Failure where
  | refused (error : SyntaxError)
  /-- The standard input cannot be read. -/
  | unreadable (reason : String)
  /-- There is no selector, and nobody pipes one in. -/
  | noSelector
  | unknownTopic (name : String)
  deriving DecidableEq

def Failure.message : Failure → String
  | refused error => s!"Parse error: {error.message}"
  | unreadable reason => s!"IO error: {reason}"
  | noSelector => "No selector provided. Pass one as an argument or pipe it to stdin."
  | unknownTopic name =>
    s!"Unknown category: '{name}'\nRun 'hyperchunks docs' to see available categories."

inductive Input where
  /-- A terminal, which is not read. -/
  | terminal
  | bytes (content : ByteArray)

def Input.text : Input → Except Failure String
  | terminal => .error .noSelector
  | bytes content =>
    match String.fromUTF8? content with
    | some text => .ok text
    | none => .error (.unreadable "stream did not contain valid UTF-8")

inductive Request where
  /-- Write a selector as JSON, or only say that it is one. -/
  | check (selector : Option String) (style : Json.Style) (syntaxOnly : Bool)
  /-- Write a selector as canonical text. -/
  | format (selector : Option String)
  | listTopics
  | showTopic (name : String)
  deriving DecidableEq

/-- What a run of the program leaves behind. -/
structure Outcome where
  code : UInt8
  output : String
  errors : String
  deriving DecidableEq

/-! ### Answers -/

def readSelector (text : String) : Except Failure Selector :=
  (Selector.parse text).mapError .refused

def checkText (style : Json.Style) (text : String) : Except Failure String :=
  return (Selector.toJson (← readSelector text)).text style

def formatText (text : String) : Except Failure String :=
  return Selector.text (← readSelector text)

def findTopic (name : String) : Except Failure Manual.Topic :=
  match Manual.Topic.ofName? name with
  | some topic => .ok topic
  | none => .error (.unknownTopic name)

namespace Request

/-- The selector comes from the standard input. -/
def readsInput : Request → Bool
  | check none .. | format none => true
  | _ => false

def selectorText (given : Option String) (input : Input) : Except Failure String :=
  match given with
  | some text => .ok text
  | none => input.text

def output (input : Input) : Request → Except Failure String
  | check selector style syntaxOnly => do
    let text ← selectorText selector input
    if syntaxOnly then
      let _ ← readSelector text
      return "Syntax is valid\n"
    else return (← checkText style text) ++ "\n"
  | format selector => return (← formatText (← selectorText selector input)) ++ "\n"
  | listTopics => return Manual.overview
  | showTopic name => return (← findTopic name).page

/-- A request prints its answer, or fails with one message and the code `1`. -/
def perform (request : Request) (input : Input) : Outcome :=
  match request.output input with
  | .ok text => ⟨0, text, ""⟩
  | .error failure => ⟨1, "", failure.message ++ "\n"⟩

end Request

end ChunkSelector
