import AfkCli.Identity

/-!
# The command line

## Main definitions

* `Command`, `ParseError`: what a command line asks for
* `parse`: the parser of `cli.rs`
-/

namespace AfkCli

inductive Command
  | help
  | version
  | session (session : SessionId) (trace : Bool) (command : List Bytes)
  | sessions (json : Bool)
  | stop (session : SessionId)
  | hiddenRunner (session : SessionId)
  | hiddenChild (command : List Bytes)
  deriving DecidableEq

inductive ParseError
  | missingCommand | unsupportedCommand | invalidSessionId | invalidArguments | commandTooLarge
  deriving DecidableEq, Repr

/-- The bounds of a command. A sum of lengths that overflows is over the bound as well. -/
def validateCommand (command : List Bytes) : Except ParseError Unit :=
  if maxCommandArguments < command.length then .error .commandTooLarge
  else if (command.map List.length).sum ≤ maxCommandBytes then .ok ()
  else .error .commandTooLarge

def parseSessionId (value : Bytes) : Except ParseError SessionId :=
  match SessionId.parseBytes value with
  | some session => .ok session
  | none => .error .invalidSessionId

/-- The command after the `--` of `afk session`. -/
def parseSessionTail (session : SessionId) (trace : Bool) : List Bytes → Except ParseError Command
  | [] => .ok (.session session trace [])
  | separator :: command =>
    if separator = ascii "--" ∧ command ≠ [] then do
      validateCommand command
      return .session session trace command
    else .error .invalidArguments

def parseSession : List Bytes → Except ParseError Command
  | [] => .error .invalidArguments
  | session :: arguments => do
    let session ← parseSessionId session
    match arguments with
    | option :: remaining =>
      if option = ascii "--trace" then parseSessionTail session true remaining
      else parseSessionTail session false (option :: remaining)
    | [] => parseSessionTail session false []

def parseSessionCommand (command : SessionId → Command) : List Bytes → Except ParseError Command
  | [session] => (parseSessionId session).map command
  | _ => .error .invalidArguments

def parseSessions : List Bytes → Except ParseError Command
  | [] => .ok (.sessions false)
  | [option] =>
    if option = ascii "--json" then .ok (.sessions true) else .error .invalidArguments
  | _ => .error .invalidArguments

def parseHiddenChild (arguments : List Bytes) : Except ParseError Command :=
  if arguments = [] then .error .invalidArguments
  else do
    validateCommand arguments
    return .hiddenChild arguments

/-- The arguments after the program's name. -/
def parse : List Bytes → Except ParseError Command
  | [] => .error .missingCommand
  | first :: rest =>
    if (first = ascii "--help" ∨ first = ascii "-h") ∧ rest = [] then .ok .help
    else if (first = ascii "--version" ∨ first = ascii "-V") ∧ rest = [] then .ok .version
    else if first = ascii "session" then parseSession rest
    else if first = ascii "sessions" then parseSessions rest
    else if first = ascii "stop" then parseSessionCommand .stop rest
    else if first = ascii "__runner" then parseSessionCommand .hiddenRunner rest
    else if first = ascii "__child" then parseHiddenChild rest
    else .error .unsupportedCommand

example : parse [ascii "sessions", ascii "--json"] = .ok (.sessions true) := by decide

theorem validateCommand_ok {command : List Bytes} :
    validateCommand command = .ok () ↔
      command.length ≤ maxCommandArguments ∧ (command.map List.length).sum ≤ maxCommandBytes := by
  unfold validateCommand
  split_ifs with hcount hbytes
  · simp only [false_iff, not_and]
    omega
  · simp only [true_iff]
    omega
  · simp only [false_iff, not_and]
    omega

/-- A command that `afk session` accepts is within the bounds. -/
theorem parseSessionTail_session {session session' : SessionId} {trace trace' : Bool}
    {arguments command : List Bytes}
    (h : parseSessionTail session trace arguments = .ok (.session session' trace' command)) :
    command.length ≤ maxCommandArguments ∧ (command.map List.length).sum ≤ maxCommandBytes := by
  unfold parseSessionTail at h
  split at h
  · obtain ⟨-, -, rfl⟩ := Command.session.inj (Except.ok.inj h)
    simp
  · split_ifs at h
    rename_i separator command' hseparator
    cases hvalid : validateCommand command' with
    | error error => simp [hvalid, bind, Except.bind] at h
    | ok u =>
      obtain ⟨-, -, rfl⟩ : session = session' ∧ trace = trace' ∧ command' = command := by
        simpa [hvalid, bind, Except.bind, pure, Except.pure] using h
      exact validateCommand_ok.mp hvalid

theorem parseSession_session {arguments command : List Bytes} {session : SessionId} {trace : Bool}
    (h : parseSession arguments = .ok (.session session trace command)) :
    command.length ≤ maxCommandArguments ∧ (command.map List.length).sum ≤ maxCommandBytes := by
  unfold parseSession at h
  split at h
  · cases h
  · rename_i id arguments
    cases hid : parseSessionId id with
    | error error => simp [hid, bind, Except.bind] at h
    | ok session' =>
      simp only [hid, bind, Except.bind] at h
      split at h
      · split_ifs at h <;> exact parseSessionTail_session h
      · exact parseSessionTail_session h

theorem parseSessionCommand_eq {command : SessionId → Command} {arguments : List Bytes}
    {c : Command} (h : parseSessionCommand command arguments = .ok c) : ∃ s, c = command s := by
  unfold parseSessionCommand at h
  split at h
  · rename_i id
    cases hid : parseSessionId id with
    | error error => simp [hid, Except.map] at h
    | ok s => exact ⟨s, by simpa [hid, Except.map] using h.symm⟩
  · cases h

/-- Only `afk session` asks for a session. -/
theorem parse_session {arguments command : List Bytes} {session : SessionId} {trace : Bool}
    (h : parse arguments = .ok (.session session trace command)) :
    command.length ≤ maxCommandArguments ∧ (command.map List.length).sum ≤ maxCommandBytes := by
  unfold parse at h
  split at h
  · cases h
  · rename_i first rest
    split_ifs at h with hhelp hversion hsession hsessions hstop hrunner hchild
    · cases h
    · cases h
    · exact parseSession_session h
    · unfold parseSessions at h
      split at h
      · cases h
      · split_ifs at h
        cases h
      · cases h
    · obtain ⟨s, hs⟩ := parseSessionCommand_eq h
      cases hs
    · obtain ⟨s, hs⟩ := parseSessionCommand_eq h
      cases hs
    · unfold parseHiddenChild at h
      split_ifs at h
      cases hvalid : validateCommand rest <;>
        simp [hvalid, bind, Except.bind, pure, Except.pure] at h

/-- The child's command line, for a command within the bounds. -/
theorem parse_child {command : List Bytes} (hne : command ≠ [])
    (hcount : command.length ≤ maxCommandArguments)
    (hbytes : (command.map List.length).sum ≤ maxCommandBytes) :
    parse (ascii "__child" :: command) = .ok (.hiddenChild command) := by
  have hvalid : validateCommand command = .ok () := validateCommand_ok.mpr ⟨hcount, hbytes⟩
  have hnames : ∀ name ∈ ["--help", "-h", "--version", "-V", "session", "sessions", "stop",
      "__runner"], ascii "__child" ≠ ascii name := by decide
  simp only [List.mem_cons, forall_eq_or_imp, List.not_mem_nil, false_imp_iff,
    implies_true, and_true] at hnames
  simp only [parse, hnames, hne, and_false, if_false, if_true, parseHiddenChild, hvalid, bind,
    Except.bind]
  rfl

end AfkCli
