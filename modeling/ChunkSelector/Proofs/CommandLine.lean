import ChunkSelector.Command.Arguments

/-!
# Command lines

A command line that leaves the selector to the standard input may name it behind `--` instead, and asks for the same then. What the
answer is depends on what `Selector.parse` says of the selector, and on nothing else.
-/

namespace ChunkSelector

section requests

variable {environment : Option String} {before g after : Given} {sub : Subcommand} {request : Request}
  {argument level : String} {rest arguments : List String}

theorem bind_eq_ok {ε α β : Type} {e : Except ε α} {next : α → Except ε β} {b : β} (h : (e >>= next) = .ok b) :
    ∃ a, e = .ok a ∧ next a = .ok b := by
  cases e with
  | error error => cases h
  | ok a => exact ⟨a, rfl, h⟩

/-! ### One operand more -/

/-- The same request for a selector that is given. -/
def Request.on (text : String) : Request → Request
  | check _ style syntaxOnly => .check (some text) style syntaxOnly
  | format _ => .format (some text)
  | listTopics => .listTopics
  | showTopic name => .showTopic name

theorem addOperand_of_nil (nil : g.operands = []) (takes : 0 < sub.maxOperands) (text : String) :
    g.addOperand sub text = .ok { g with operands := [text] } := by
  rw [Given.addOperand, nil]
  exact if_pos takes

theorem requestOf_operand (asked : requestOf g sub = .ok request) (reads : request.readsInput = true) (text : String) :
    ∃ more, g.addOperand sub text = .ok more ∧ more.hasLevel = g.hasLevel ∧ requestOf more sub = .ok (request.on text) := by
  cases sub with
  | check =>
    cases asked
    cases operand : g.operands.head? with
    | some given => simp [Request.readsInput, operand] at reads
    | none => exact ⟨_, addOperand_of_nil (List.head?_eq_none_iff.mp operand) (by decide) text, rfl, rfl⟩
  | format =>
    cases asked
    cases operand : g.operands.head? with
    | some given => simp [Request.readsInput, operand] at reads
    | none => exact ⟨_, addOperand_of_nil (List.head?_eq_none_iff.mp operand) (by decide) text, rfl, rfl⟩
  | docs =>
    cases asked
    cases reads
  | doc =>
    rw [requestOf] at asked
    split at asked
    · cases asked
      cases reads
    · cases asked

theorem readGiven_operand (read : readGiven sub g arguments = .ok after) (opened : "--" ∉ arguments) (text : String) :
    readGiven sub g (arguments ++ ["--", text]) = after.addOperand sub text := by
  fun_induction readGiven sub g arguments with
  | case1 g =>
    cases read
    exact bind_pure _
  | case2 g => cases read
  | case3 g operands => simp at opened
  | case4 g level rest ih =>
    obtain ⟨next, first, read⟩ := bind_eq_ok read
    rw [List.cons_append, List.cons_append, readGiven, first]
    exact ih next read (fun member => opened (by simp [member]))
  | case5 g argument rest alone dashes leveled ih =>
    obtain ⟨next, first, read⟩ := bind_eq_ok read
    rw [List.cons_append, readGiven, first]
    · exact ih next read (fun member => opened (by simp [member]))
    · intro same nil
      simp at nil
    · exact dashes
    · intro level more same behind
      cases rest with
      | nil => exact alone same rfl
      | cons level rest => exact leveled _ _ same rfl

/-! ### In front of the subcommand -/

theorem readArguments_attached (attached : attachedLevel? argument = some level) :
    readArguments environment before (argument :: rest) = (do readArguments environment (← before.addLevel level) rest) := by
  have plain : argument ≠ "--log-level" := by
    rintro rfl
    cases attached.symm.trans (by decide : attachedLevel? "--log-level" = none)
  rw [readArguments]
  · rw [attached]
  · exact fun same _ => plain same
  · exact fun _ _ same _ => plain same

theorem readArguments_subcommand (named : Subcommand.ofName? argument = some sub) :
    readArguments environment before (argument :: rest) = (do
      let after ← readGiven sub .nothing rest
      if (before.hasLevel && after.hasLevel) || environment.all isLevel then requestOf after sub else .error .usage) := by
  unfold Subcommand.ofName? at named
  split at named <;> cases named <;> rfl

/-- Wherever its options stand, a command line that reads the standard input asks for the same with the selector behind it. -/
theorem readArguments_operand (asked : readArguments environment before arguments = .ok request)
    (reads : request.readsInput = true) (opened : "--" ∉ arguments) (text : String) :
    readArguments environment before (arguments ++ ["--", text]) = .ok (request.on text) := by
  fun_induction readArguments environment before arguments with
  | case1 before => cases asked
  | case2 before => cases asked
  | case3 before level rest ih =>
    obtain ⟨next, first, asked⟩ := bind_eq_ok asked
    rw [List.cons_append, List.cons_append, readArguments, first]
    exact ih next asked (fun member => opened (by simp [member]))
  | case4 before argument rest alone leveled level attached ih =>
    obtain ⟨next, first, asked⟩ := bind_eq_ok asked
    rw [List.cons_append, readArguments_attached attached, first]
    exact ih next asked (fun member => opened (by simp [member]))
  | case5 => cases asked
  | case6 => cases asked
  | case7 => cases asked
  | case8 => cases asked
  | case9 => cases asked
  | case10 before argument rest alone leveled attached version help sub named letterV letterH =>
    obtain ⟨after, read, asked⟩ := bind_eq_ok asked
    split at asked
    · rename_i level
      obtain ⟨more, operand, same, asked⟩ := requestOf_operand asked reads text
      rw [List.cons_append, readArguments_subcommand named,
        readGiven_operand read (fun member => opened (by simp [member])) text, operand]
      change (if (before.hasLevel && more.hasLevel || _) = true then requestOf more sub else _) = _
      rw [same, if_pos level, asked]
    · cases asked

/-! ### Answers -/

theorem Input.text_toUTF8 (text : String) : Input.text (.bytes text.toUTF8) = .ok text := by
  rw [Input.text, String.fromUTF8?, dif_pos (String.toUTF8_eq_toByteArray ▸ text.isValidUTF8)]
  rfl

theorem Input.text_of_invalid {content : ByteArray} (invalid : ¬ content.IsValidUTF8) :
    Input.text (.bytes content) = .error (.unreadable "stream did not contain valid UTF-8") := by
  rw [Input.text, String.fromUTF8?, dif_neg invalid]

namespace Request

/-- What the request writes for a selector. -/
def answer (s : Selector) : Request → String
  | check _ style syntaxOnly => if syntaxOnly then "Syntax is valid" else s.toJson.text style
  | format _ => s.text
  | listTopics | showTopic _ => ""

theorem readsInput_cases (reads : request.readsInput = true) :
    (∃ style syntaxOnly, request = .check none style syntaxOnly) ∨ request = .format none := by
  cases request with
  | check selector style syntaxOnly =>
    cases selector with
    | none => exact .inl ⟨style, syntaxOnly, rfl⟩
    | some given => cases reads
  | format selector =>
    cases selector with
    | none => exact .inr rfl
    | some given => cases reads
  | listTopics => cases reads
  | showTopic name => cases reads

theorem output_on (reads : request.readsInput = true) (text : String) (input : Input) :
    (request.on text).output input = request.output (.bytes text.toUTF8) := by
  rcases readsInput_cases reads with ⟨style, syntaxOnly, rfl⟩ | rfl
  · rw [on, output, output, selectorText, selectorText, Input.text_toUTF8]
  · rw [on, output, output, selectorText, selectorText, Input.text_toUTF8]

/-- A request that reads the standard input fails before it writes anything, or writes its whole answer. -/
theorem output_eq (reads : request.readsInput = true) (input : Input) : request.output input = (do
    let text ← input.text
    match Selector.parse text with
    | .ok s => return request.answer s ++ "\n"
    | .error e => throw (.refused e)) := by
  rcases readsInput_cases reads with ⟨style, syntaxOnly, rfl⟩ | rfl
  · rw [output, selectorText]
    refine bind_congr fun text => ?_
    unfold checkText readSelector
    cases Selector.parse text with
    | error e => cases syntaxOnly <;> rfl
    | ok s => cases syntaxOnly <;> rfl
  · rw [output, selectorText]
    refine bind_congr fun text => ?_
    unfold formatText readSelector
    cases Selector.parse text <;> rfl

theorem perform_of_parse (reads : request.readsInput = true) {input : Input} {text : String} {s : Selector}
    (found : input.text = .ok text) (accepted : Selector.parse text = .ok s) :
    request.perform input = ⟨0, request.answer s ++ "\n", ""⟩ := by
  rw [perform, output_eq reads, found]
  simp only [bind, Except.bind, accepted]
  rfl

theorem perform_of_refused (reads : request.readsInput = true) {input : Input} {text : String} {e : SyntaxError}
    (found : input.text = .ok text) (refused : Selector.parse text = .error e) :
    request.perform input = ⟨1, "", (Failure.refused e).message ++ "\n"⟩ := by
  rw [perform, output_eq reads, found]
  simp only [bind, Except.bind, refused]
  rfl

theorem perform_code_eq_zero_iff (reads : request.readsInput = true) {input : Input} {text : String}
    (found : input.text = .ok text) : (request.perform input).code = 0 ↔ ∃ s, Selector.parse text = .ok s := by
  cases verdict : Selector.parse text with
  | ok s => simp [perform_of_parse reads found verdict]
  | error e => simp [perform_of_refused reads found verdict]

theorem perform_of_unreadable (reads : request.readsInput = true) {input : Input} {failure : Failure}
    (missing : input.text = .error failure) : request.perform input = ⟨1, "", failure.message ++ "\n"⟩ := by
  rw [perform, output_eq reads, missing]
  rfl

end Request

/-- Naming the selector instead of piping it in changes nothing about the outcome, whatever else the command line says. -/
theorem runCommand_operand (asked : Request.ofArguments arguments environment = .ok request) (reads : request.readsInput = true)
    (opened : "--" ∉ arguments) (input : Input) (text : String) :
    runCommand (arguments ++ ["--", text]) environment input = runCommand arguments environment (.bytes text.toUTF8) := by
  have named : Request.ofArguments (arguments ++ ["--", text]) environment = .ok (request.on text) :=
    readArguments_operand asked reads opened text
  simp only [runCommand, named, asked, Request.perform, Request.output_on reads]

end requests

/-! ### The commands for a selector -/

def Flag.word : Flag → String
  | pretty => "--pretty"
  | syntaxOnly => "--syntax-only"

theorem addArgument_word (g : Given) (flag : Flag) : g.addArgument .check flag.word = g.addFlag (some flag) := by
  cases flag <;> rfl

theorem readGiven_word (g : Given) (flag : Flag) (rest : List String) :
    readGiven .check g (flag.word :: rest) = (do readGiven .check (← g.addFlag (some flag)) rest) := by
  rw [← addArgument_word]
  cases flag <;> rfl

theorem readGiven_flags {g : Given} {flags : List Flag} (once : (g.flags ++ flags).Nodup) :
    readGiven .check g (flags.map Flag.word) = .ok { g with flags := g.flags ++ flags } := by
  induction flags generalizing g with
  | nil => simp [readGiven]
  | cons flag flags ih =>
    have absent : g.flags.contains flag = false := by
      obtain ⟨-, -, apart⟩ := List.nodup_append.mp once
      simp only [List.contains_eq_mem, decide_eq_false_iff_not]
      exact fun member => apart flag member flag List.mem_cons_self rfl
    have first : g.addFlag (some flag) = .ok { g with flags := g.flags ++ [flag] } := by
      rw [Given.addFlag, absent]
      rfl
    rw [List.map_cons, readGiven_word, first]
    refine (ih (g := { g with flags := g.flags ++ [flag] }) ?_).trans ?_
    · simpa using once
    · simp

theorem readGiven_all_flags {flags : List Flag} (once : flags.Nodup) :
    readGiven .check .nothing (flags.map Flag.word) = .ok ⟨false, flags, []⟩ :=
  readGiven_flags once

/-- A subcommand that takes a selector, with its flags in any order. -/
inductive SelectorCommand where
  | format
  | check (flags : List Flag) (once : flags.Nodup)

namespace SelectorCommand

def arguments : SelectorCommand → List String
  | format => ["format"]
  | check flags _ => "check" :: flags.map Flag.word

def request : SelectorCommand → Request
  | format => .format none
  | check flags _ => .check none (if flags.contains .pretty then .indented else .compact) (flags.contains .syntaxOnly)

theorem request_readsInput (command : SelectorCommand) : command.request.readsInput = true := by
  cases command <;> rfl

theorem dashes_not_mem (command : SelectorCommand) : "--" ∉ command.arguments := by
  cases command with
  | format => decide
  | check flags once =>
    intro member
    rcases List.mem_cons.mp member with same | member
    · exact absurd same (by decide)
    · obtain ⟨flag, -, same⟩ := List.mem_map.mp member
      cases flag <;> exact absurd same (by decide)

theorem ofArguments_eq (command : SelectorCommand) (environment : Option String) :
    Request.ofArguments command.arguments environment =
      if environment.all isLevel then .ok command.request else .error .usage := by
  cases command with
  | format => rfl
  | check flags once =>
    rw [arguments, Request.ofArguments, readArguments_subcommand rfl, readGiven_all_flags once]
    rfl

/-- A bad level in the environment is refused, with an operand as without one. -/
theorem ofArguments_refused (command : SelectorCommand) {environment : Option String} (bad : environment.all isLevel = false)
    (text : String) : Request.ofArguments (command.arguments ++ ["--", text]) environment = .error .usage := by
  cases command with
  | format =>
    change (if environment.all isLevel = true then _ else _) = _
    rw [bad]
    rfl
  | check flags once =>
    have opened : "--" ∉ flags.map Flag.word := fun member => (check flags once).dashes_not_mem (List.mem_cons_of_mem _ member)
    rw [arguments, List.cons_append, Request.ofArguments, readArguments_subcommand rfl,
      readGiven_operand (readGiven_all_flags once) opened, addOperand_of_nil rfl (by decide)]
    change (if environment.all isLevel = true then _ else _) = _
    rw [bad]
    rfl

end SelectorCommand

/-- What a command for a selector answers does not depend on the way that the selector takes. Where the level of the environment is
proper, the parser decides it: an accepted selector is written, a refused one is answered with its error and nothing else, and so is
an input that is no text. The lines of the log are no part of an outcome. -/
theorem runCommand_decided (command : SelectorCommand) (environment : Option String) (input : Input) (text : String) :
    let outcome := runCommand (command.arguments ++ ["--", text]) environment input
    outcome = runCommand command.arguments environment (.bytes text.toUTF8) ∧
    (environment.all isLevel = true →
      readsInput command.arguments environment = true ∧
      (outcome.code = 0 ↔ ∃ s, Selector.parse text = .ok s) ∧
      (∀ s, Selector.parse text = .ok s → outcome = ⟨0, command.request.answer s ++ "\n", ""⟩) ∧
      (∀ e, Selector.parse text = .error e → outcome = ⟨1, "", "Parse error: " ++ e.message ++ "\n"⟩) ∧
      ∀ content : ByteArray, ¬ content.IsValidUTF8 →
        (runCommand command.arguments environment (.bytes content)).code = 1 ∧
        (runCommand command.arguments environment (.bytes content)).output = "") := by
  intro outcome
  have asked := command.ofArguments_eq environment
  have reads := command.request_readsInput
  cases level : environment.all isLevel with
  | false =>
    rw [level] at asked
    refine ⟨?_, fun proper => absurd proper (by decide)⟩
    simp only [outcome, runCommand, asked, command.ofArguments_refused level]
    rfl
  | true =>
    rw [level, if_pos rfl] at asked
    have piped : outcome = runCommand command.arguments environment (.bytes text.toUTF8) :=
      runCommand_operand asked reads command.dashes_not_mem input text
    have performed : ∀ input, runCommand command.arguments environment input = command.request.perform input := by
      intro input
      rw [runCommand, asked]
    have found := Input.text_toUTF8 text
    refine ⟨piped, fun _ => ⟨?_, ?_, ?_, ?_, ?_⟩⟩
    · rw [readsInput, asked]
      exact reads
    · rw [piped, performed]
      exact Request.perform_code_eq_zero_iff reads found
    · intro s accepted
      rw [piped, performed, Request.perform_of_parse reads found accepted]
    · intro e refused
      rw [piped, performed, Request.perform_of_refused reads found refused]
      rfl
    · intro content invalid
      rw [performed, Request.perform_of_unreadable reads (Input.text_of_invalid invalid)]
      exact ⟨rfl, rfl⟩

/-- A selector of two clauses, the second of them empty, is refused whatever is asked for. -/
example : runCommand ["check", "--syntax-only", "--pretty", "--", "0;"] none .terminal =
    ⟨1, "", "Parse error: empty section after ';' at offset 2\n"⟩ := by rfl

end ChunkSelector
