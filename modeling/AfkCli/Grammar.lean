import AfkCli.Cli

/-!
# The grammar of the command line

The forms a command line may have, stated apart from the parser, and the arguments a command is
written as.

## Main definitions

* `InGrammar`: the accepted argument lists, one constructor for each form
* `Command.render`: the arguments of a command
* `canonical`: the two short options written out

## Main results

* `parse_eq_ok`: the parser inverts `Command.render` on the commands within the bounds
* `parse_exact`: the parser accepts exactly the grammar, and loses nothing of the arguments
-/

namespace AfkCli

/-! ## The forms -/

/-- A session ID as it is typed: 32 lowercase hexadecimal characters. -/
def IsId (text : Bytes) : Prop :=
  text.length = 32 ∧ ∀ byte ∈ text, SessionId.isLowerHex byte = true

/-- The arguments of a program: 1 to 256 of them, with at most 65536 bytes together. -/
def IsProgram (command : List Bytes) : Prop :=
  1 ≤ command.length ∧ command.length ≤ maxCommandArguments ∧
    (command.map List.length).sum ≤ maxCommandBytes

/-- The argument lists of the command line. -/
inductive InGrammar : List Bytes → Prop
  | help : InGrammar [ascii "--help"]
  | shortHelp : InGrammar [ascii "-h"]
  | version : InGrammar [ascii "--version"]
  | shortVersion : InGrammar [ascii "-V"]
  | session {id : Bytes} {option tail : List Bytes} (hid : IsId id)
      (hoption : option = [] ∨ option = [ascii "--trace"])
      (htail : tail = [] ∨ ∃ command, IsProgram command ∧ tail = ascii "--" :: command) :
      InGrammar (ascii "session" :: id :: (option ++ tail))
  | sessions {option : List Bytes} (hoption : option = [] ∨ option = [ascii "--json"]) :
      InGrammar (ascii "sessions" :: option)
  | stop {id : Bytes} (hid : IsId id) : InGrammar [ascii "stop", id]
  | hiddenRunner {id : Bytes} (hid : IsId id) : InGrammar [ascii "__runner", id]
  | hiddenChild {command : List Bytes} (hcommand : IsProgram command) :
      InGrammar (ascii "__child" :: command)

/-- An ID as it is typed is the text of an ID. -/
theorem isId_iff {text : Bytes} : IsId text ↔ ∃ s : SessionId, text = s.toText := by
  rw [IsId, ← SessionId.parseBytes_isSome, Option.isSome_iff_exists]
  simp only [SessionId.parseBytes_eq_some]

/-! ## Rendering -/

/-- The arguments after the ID of `afk session`. -/
def sessionArguments (trace : Bool) (command : List Bytes) : List Bytes :=
  (if trace then [ascii "--trace"] else []) ++ (if command = [] then [] else ascii "--" :: command)

/-- The arguments a command is written as. -/
def Command.render : Command → List Bytes
  | .help => [ascii "--help"]
  | .version => [ascii "--version"]
  | .session id trace command => ascii "session" :: id.toText :: sessionArguments trace command
  | .sessions json => ascii "sessions" :: if json then [ascii "--json"] else []
  | .stop id => [ascii "stop", id.toText]
  | .hiddenRunner id => [ascii "__runner", id.toText]
  | .hiddenChild command => ascii "__child" :: command

/-- The program a command carries is within the bounds. -/
def Command.Bounded : Command → Prop
  | .session _ _ command => command = [] ∨ IsProgram command
  | .hiddenChild command => IsProgram command
  | _ => True

/-- The two short options, written out. -/
def canonical (arguments : List Bytes) : List Bytes :=
  if arguments = [ascii "-h"] then [ascii "--help"]
  else if arguments = [ascii "-V"] then [ascii "--version"]
  else arguments

theorem trace_ne_separator : ascii "--trace" ≠ ascii "--" := by decide

theorem sessionArguments_injective {trace trace' : Bool} {command command' : List Bytes}
    (h : sessionArguments trace command = sessionArguments trace' command') :
    trace = trace' ∧ command = command' := by
  have hne := trace_ne_separator
  unfold sessionArguments at h
  cases trace <;> cases trace' <;> split_ifs at h <;> simp_all

/-- The first argument tells the forms apart; the rest gives what the command carries. -/
theorem Command.render_injective : Function.Injective Command.render := by
  intro c c' h
  have hword : c.render.head? = c'.render.head? := congrArg List.head? h
  have hoperands : c.render.tail = c'.render.tail := congrArg List.tail h
  cases c <;> cases c'
  case session.session session trace command session' trace' command' =>
    obtain ⟨hid, htail⟩ := List.cons.inj hoperands
    obtain ⟨rfl, rfl⟩ := sessionArguments_injective htail
    rw [SessionId.toText_inj.mp hid]
  case sessions.sessions json json' =>
    cases json <;> cases json' <;> first | rfl | cases hoperands
  case stop.stop session session' =>
    rw [SessionId.toText_inj.mp (List.cons.inj hoperands).1]
  case hiddenRunner.hiddenRunner session session' =>
    rw [SessionId.toText_inj.mp (List.cons.inj hoperands).1]
  case hiddenChild.hiddenChild command command' =>
    exact congrArg Command.hiddenChild hoperands
  all_goals first | rfl | exact absurd (Option.some.inj hword) (by decide)

/-! ## The parser -/

theorem parseSessionId_eq_ok {text : Bytes} {s : SessionId} :
    parseSessionId text = .ok s ↔ text = s.toText := by
  rw [← SessionId.parseBytes_eq_some, parseSessionId]
  cases SessionId.parseBytes text <;> simp

theorem validateCommand_isProgram {command : List Bytes} (hne : command ≠ []) :
    validateCommand command = .ok () ↔ IsProgram command := by
  have hpos : 1 ≤ command.length := List.length_pos_iff.mpr hne
  rw [validateCommand_ok, IsProgram]
  exact (and_iff_right hpos).symm

/-- What `afk session` takes after the ID and the option. -/
theorem parseSessionTail_eq_ok {session : SessionId} {trace : Bool} {arguments : List Bytes}
    {c : Command} :
    parseSessionTail session trace arguments = .ok c ↔
      ∃ command, (command = [] ∨ IsProgram command) ∧ c = .session session trace command ∧
        arguments = sessionArguments false command := by
  have hempty : ¬ IsProgram [] := fun h => Nat.not_succ_le_zero 0 h.1
  cases arguments with
  | nil =>
    constructor
    · intro h
      exact ⟨[], .inl rfl, (Except.ok.inj h).symm, rfl⟩
    · rintro ⟨command, -, rfl, harguments⟩
      have hcommand : command = [] := by
        by_contra hne
        simp [sessionArguments, hne] at harguments
      subst hcommand
      rfl
  | cons separator command =>
    constructor
    · intro h
      simp only [parseSessionTail] at h
      split_ifs at h with hseparator
      obtain ⟨rfl, hne⟩ := hseparator
      have hvalid : validateCommand command = .ok () := by
        cases hvalid : validateCommand command with
        | error error => simp [hvalid, bind, Except.bind] at h
        | ok u => rfl
      refine ⟨command, .inr ((validateCommand_isProgram hne).mp hvalid), ?_, ?_⟩
      · simp only [hvalid, bind, Except.bind] at h
        exact (Except.ok.inj h).symm
      · simp [sessionArguments, hne]
    · rintro ⟨command', hbounds, rfl, harguments⟩
      have hne : command' ≠ [] := by
        rintro rfl
        simp [sessionArguments] at harguments
      have hprogram : IsProgram command' := hbounds.resolve_left hne
      obtain ⟨rfl, rfl⟩ : separator = ascii "--" ∧ command = command' := by
        simpa [sessionArguments, hne] using harguments
      simp only [parseSessionTail, hne, ne_eq, not_false_eq_true, and_self, if_true,
        (validateCommand_isProgram hne).mpr hprogram]
      rfl

/-- The option right after the ID. -/
theorem parseSession_cons {session : SessionId} {option : Bytes} {remaining : List Bytes} :
    parseSession (session.toText :: option :: remaining) =
      if option = ascii "--trace" then parseSessionTail session true remaining
      else parseSessionTail session false (option :: remaining) := by
  simp only [parseSession, parseSessionId_eq_ok.mpr rfl, bind, Except.bind]

theorem parseSession_alone {session : SessionId} :
    parseSession [session.toText] = parseSessionTail session false [] := by
  simp only [parseSession, parseSessionId_eq_ok.mpr rfl, bind, Except.bind]

/-- `afk session` takes an ID first. -/
theorem parseSession_id {id : Bytes} {arguments : List Bytes} {c : Command}
    (h : parseSession (id :: arguments) = .ok c) : ∃ session : SessionId, id = session.toText := by
  cases hid : parseSessionId id with
  | error error => simp [parseSession, hid, bind, Except.bind] at h
  | ok session => exact ⟨session, parseSessionId_eq_ok.mp hid⟩

/-- What `afk session` takes. -/
theorem parseSession_eq_ok {arguments : List Bytes} {c : Command} :
    parseSession arguments = .ok c ↔
      ∃ session trace command, (command = [] ∨ IsProgram command) ∧
        c = .session session trace command ∧
        arguments = session.toText :: sessionArguments trace command := by
  constructor
  · intro h
    cases arguments with
    | nil => cases h
    | cons id arguments =>
      obtain ⟨session, rfl⟩ := parseSession_id h
      cases arguments with
      | nil =>
        rw [parseSession_alone] at h
        obtain ⟨command, hbounds, rfl, harguments⟩ := parseSessionTail_eq_ok.mp h
        exact ⟨session, false, command, hbounds, rfl, by rw [harguments]⟩
      | cons option remaining =>
        rw [parseSession_cons] at h
        split_ifs at h with htrace
        · obtain ⟨command, hbounds, rfl, rfl⟩ := parseSessionTail_eq_ok.mp h
          exact ⟨session, true, command, hbounds, rfl, by simp [sessionArguments, htrace]⟩
        · obtain ⟨command, hbounds, rfl, harguments⟩ := parseSessionTail_eq_ok.mp h
          exact ⟨session, false, command, hbounds, rfl, by rw [harguments]⟩
  · rintro ⟨session, trace, command, hbounds, rfl, rfl⟩
    have htail (trace : Bool) : parseSessionTail session trace (sessionArguments false command) =
        .ok (.session session trace command) :=
      parseSessionTail_eq_ok.mpr ⟨command, hbounds, rfl, rfl⟩
    cases trace with
    | true =>
      show parseSession (session.toText :: ascii "--trace" :: sessionArguments false command) = _
      rw [parseSession_cons, if_pos rfl]
      exact htail true
    | false =>
      rcases eq_or_ne command [] with rfl | hne
      · exact parseSession_alone.trans (htail false)
      · have hfirst : sessionArguments false command = ascii "--" :: command := by
          simp [sessionArguments, hne]
        rw [hfirst, parseSession_cons, if_neg trace_ne_separator.symm, ← hfirst]
        exact htail false

theorem parseSessions_eq_ok {arguments : List Bytes} {c : Command} :
    parseSessions arguments = .ok c ↔
      ∃ json, c = .sessions json ∧ arguments = if json then [ascii "--json"] else [] := by
  unfold parseSessions
  split
  · constructor
    · intro h
      exact ⟨false, (Except.ok.inj h).symm, rfl⟩
    · rintro ⟨json, rfl, h⟩
      cases json <;> simp_all
  · rename_i option
    constructor
    · intro h
      split_ifs at h with hoption
      exact ⟨true, (Except.ok.inj h).symm, by simp [hoption]⟩
    · rintro ⟨json, rfl, h⟩
      cases json <;> simp_all
  · rename_i hnil hone
    constructor
    · intro h
      cases h
    · rintro ⟨json, rfl, h⟩
      cases json <;> simp_all

theorem parseSessionCommand_eq_ok {command : SessionId → Command} {arguments : List Bytes}
    {c : Command} :
    parseSessionCommand command arguments = .ok c ↔
      ∃ session : SessionId, c = command session ∧ arguments = [session.toText] := by
  unfold parseSessionCommand
  split
  · rename_i id
    constructor
    · intro h
      cases hid : parseSessionId id with
      | error error => simp [hid, Except.map] at h
      | ok session =>
        rw [hid] at h
        exact ⟨session, (Except.ok.inj h).symm, by rw [parseSessionId_eq_ok.mp hid]⟩
    · rintro ⟨session, rfl, h⟩
      have hid : id = session.toText := by simpa using h
      rw [parseSessionId_eq_ok.mpr hid]
      rfl
  · rename_i hone
    constructor
    · intro h
      cases h
    · rintro ⟨session, rfl, h⟩
      exact absurd h (hone _)

theorem parseHiddenChild_eq_ok {arguments : List Bytes} {c : Command} :
    parseHiddenChild arguments = .ok c ↔ IsProgram arguments ∧ c = .hiddenChild arguments := by
  unfold parseHiddenChild
  split_ifs with hne
  · subst hne
    simp [IsProgram]
  · rw [← validateCommand_isProgram hne]
    cases validateCommand arguments with
    | error error => simp [bind, Except.bind]
    | ok u =>
      simp only [bind, Except.bind, pure, Except.pure, Except.ok.injEq, true_and]
      exact eq_comm

/-- What a command within the bounds is written as is read back. -/
theorem parse_render {c : Command} (h : c.Bounded) : parse c.render = .ok c := by
  cases c with
  | help => rfl
  | version => rfl
  | session id trace command =>
    have hparse := parseSession_eq_ok.mpr ⟨id, trace, command, h, rfl, rfl⟩
    exact hparse
  | sessions json => exact parseSessions_eq_ok.mpr ⟨json, rfl, rfl⟩
  | stop id =>
    exact parseSessionCommand_eq_ok.mpr ⟨id, rfl, rfl⟩
  | hiddenRunner id =>
    exact parseSessionCommand_eq_ok.mpr ⟨id, rfl, rfl⟩
  | hiddenChild command => exact parseHiddenChild_eq_ok.mpr ⟨h, rfl⟩

/-- **The parser inverts the rendering** on the commands within the bounds; what else it accepts
are the two short options. -/
theorem parse_eq_ok {arguments : List Bytes} {c : Command} :
    parse arguments = .ok c ↔
      (c.Bounded ∧ arguments = c.render) ∨ (c = .help ∧ arguments = [ascii "-h"]) ∨
        (c = .version ∧ arguments = [ascii "-V"]) := by
  constructor
  · intro h
    unfold parse at h
    split at h
    · cases h
    · rename_i first rest
      split_ifs at h with hhelp hversion hsession hsessions hstop hrunner hchild
      · obtain rfl := Except.ok.inj h
        obtain ⟨rfl | rfl, rfl⟩ := hhelp
        · exact .inl ⟨trivial, rfl⟩
        · exact .inr (.inl ⟨rfl, rfl⟩)
      · obtain rfl := Except.ok.inj h
        obtain ⟨rfl | rfl, rfl⟩ := hversion
        · exact .inl ⟨trivial, rfl⟩
        · exact .inr (.inr ⟨rfl, rfl⟩)
      · obtain ⟨id, trace, command, hbounds, rfl, rfl⟩ := parseSession_eq_ok.mp h
        exact .inl ⟨hbounds, by rw [hsession]; rfl⟩
      · obtain ⟨json, rfl, rfl⟩ := parseSessions_eq_ok.mp h
        exact .inl ⟨trivial, by rw [hsessions]; rfl⟩
      · obtain ⟨id, rfl, rfl⟩ := parseSessionCommand_eq_ok.mp h
        exact .inl ⟨trivial, by rw [hstop]; rfl⟩
      · obtain ⟨id, rfl, rfl⟩ := parseSessionCommand_eq_ok.mp h
        exact .inl ⟨trivial, by rw [hrunner]; rfl⟩
      · obtain ⟨hprogram, rfl⟩ := parseHiddenChild_eq_ok.mp h
        exact .inl ⟨hprogram, by rw [hchild]; rfl⟩
  · rintro (⟨hbounds, rfl⟩ | ⟨rfl, rfl⟩ | ⟨rfl, rfl⟩)
    · exact parse_render hbounds
    · rfl
    · rfl

/-! ## The grammar -/

/-- The grammar is what the commands within the bounds are written as, and the short options. -/
theorem inGrammar_iff {arguments : List Bytes} :
    InGrammar arguments ↔
      (∃ c : Command, c.Bounded ∧ arguments = c.render) ∨ arguments = [ascii "-h"] ∨
        arguments = [ascii "-V"] := by
  constructor
  · intro h
    cases h with
    | help => exact .inl ⟨.help, trivial, rfl⟩
    | shortHelp => exact .inr (.inl rfl)
    | version => exact .inl ⟨.version, trivial, rfl⟩
    | shortVersion => exact .inr (.inr rfl)
    | @session id option tail hid hoption htail =>
      obtain ⟨s, rfl⟩ := isId_iff.mp hid
      obtain ⟨trace, rfl⟩ : ∃ trace : Bool, option = if trace then [ascii "--trace"] else [] := by
        rcases hoption with rfl | rfl
        · exact ⟨false, rfl⟩
        · exact ⟨true, rfl⟩
      obtain ⟨command, hbounds, rfl⟩ : ∃ command : List Bytes,
          (command = [] ∨ IsProgram command) ∧
            tail = if command = [] then [] else ascii "--" :: command := by
        rcases htail with rfl | ⟨command, hcommand, rfl⟩
        · exact ⟨[], .inl rfl, rfl⟩
        · have hne : command ≠ [] := List.length_pos_iff.mp hcommand.1
          exact ⟨command, .inr hcommand, by rw [if_neg hne]⟩
      exact .inl ⟨.session s trace command, hbounds, rfl⟩
    | @sessions option hoption =>
      rcases hoption with rfl | rfl
      · exact .inl ⟨.sessions false, trivial, rfl⟩
      · exact .inl ⟨.sessions true, trivial, rfl⟩
    | stop hid =>
      obtain ⟨s, rfl⟩ := isId_iff.mp hid
      exact .inl ⟨.stop s, trivial, rfl⟩
    | hiddenRunner hid =>
      obtain ⟨s, rfl⟩ := isId_iff.mp hid
      exact .inl ⟨.hiddenRunner s, trivial, rfl⟩
    | hiddenChild hcommand => exact .inl ⟨.hiddenChild _, hcommand, rfl⟩
  · rintro (⟨c, hbounds, rfl⟩ | rfl | rfl)
    · cases c with
      | help => exact .help
      | version => exact .version
      | session id trace command =>
        refine .session (isId_iff.mpr ⟨id, rfl⟩) ?_ ?_
        · cases trace
          · exact .inl rfl
          · exact .inr rfl
        · rcases hbounds with rfl | hprogram
          · exact .inl rfl
          · have hne : command ≠ [] := List.length_pos_iff.mp hprogram.1
            exact .inr ⟨command, hprogram, if_neg hne⟩
      | sessions json =>
        refine .sessions ?_
        cases json
        · exact .inl rfl
        · exact .inr rfl
      | stop id => exact .stop (isId_iff.mpr ⟨id, rfl⟩)
      | hiddenRunner id => exact .hiddenRunner (isId_iff.mpr ⟨id, rfl⟩)
      | hiddenChild command => exact .hiddenChild hbounds
    · exact .shortHelp
    · exact .shortVersion

/-- A rendered command has no short option. -/
theorem canonical_render (c : Command) : canonical c.render = c.render := by
  have hshort : c.render ≠ [ascii "-h"] ∧ c.render ≠ [ascii "-V"] := by
    constructor <;> intro h <;> have hword := congrArg List.head? h <;>
      cases c <;> exact absurd (Option.some.inj hword) (by decide)
  rw [canonical, if_neg hshort.1, if_neg hshort.2]

/-- What the parser returns is what the arguments say, with the short options written out. -/
theorem render_of_parse {arguments : List Bytes} {c : Command} (h : parse arguments = .ok c) :
    c.render = canonical arguments := by
  obtain ⟨-, rfl⟩ | ⟨rfl, rfl⟩ | ⟨rfl, rfl⟩ := parse_eq_ok.mp h
  · exact (canonical_render c).symm
  · rfl
  · rfl

/-- **The parser accepts exactly the grammar**, and what it returns is the one command that is
written as the arguments. -/
theorem parse_exact (arguments : List Bytes) :
    ((∃ c, parse arguments = .ok c) ↔ InGrammar arguments) ∧
      ∀ c, parse arguments = .ok c ↔ InGrammar arguments ∧ c.render = canonical arguments := by
  have haccepted : (∃ c, parse arguments = .ok c) ↔ InGrammar arguments := by
    rw [inGrammar_iff]
    constructor
    · rintro ⟨c, hc⟩
      obtain ⟨hbounds, rfl⟩ | ⟨-, rfl⟩ | ⟨-, rfl⟩ := parse_eq_ok.mp hc
      · exact .inl ⟨c, hbounds, rfl⟩
      · exact .inr (.inl rfl)
      · exact .inr (.inr rfl)
    · rintro (⟨c, hbounds, rfl⟩ | rfl | rfl)
      · exact ⟨c, parse_render hbounds⟩
      · exact ⟨.help, rfl⟩
      · exact ⟨.version, rfl⟩
  refine ⟨haccepted, fun c => ⟨fun h => ⟨haccepted.mp ⟨c, h⟩, render_of_parse h⟩, ?_⟩⟩
  rintro ⟨hgrammar, hrender⟩
  obtain ⟨c', hc'⟩ := haccepted.mpr hgrammar
  -- Both commands are written as the same arguments.
  have hsame : c.render = c'.render := hrender.trans (render_of_parse hc').symm
  rw [Command.render_injective hsame]
  exact hc'

end AfkCli
