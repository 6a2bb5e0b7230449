import AfkCli.Attach
import AfkCli.Footprint
import AfkCli.Runner

/-!
# The calls of each part

What the parts of the program can call, with the data they pass: the registry, a trace, the
replacement of a file, and the runner's event loop. A property of the calls alone then needs no
second look at the functions.

## Main definitions

* `TraceText`: the lines of a trace
* `Surface.Opens`, `Surface.Connects`, `Surface.Takes`: opening the registry, connecting to a
  session, and taking it
* `Surface.Traces`, `Surface.Replaces`: writing to a trace, and replacing a file
* `Surface.Serves`, `Surface.Attends`: the event loop, and an attachment's relay

## Main results

* `Surface.steps_handleActive`, `Surface.steps_acceptCandidate`, …: the calls of the event loop
* `Surface.only_attachLoop`: the calls of an attachment's relay
-/

namespace AfkCli

open Interaction

/-! ## Lines -/

/-- The events of the traces. -/
def traceEvents : List String :=
  ["trace_started", "trace_opened", "runner_started", "child_started", "child_exited",
    "session_completed", "stop_requested", "pty_eof", "pty_eio", "pty_read_failed",
    "pty_input_write_failed", "runner_poll_failed", "candidate_accepted", "candidate_replaced",
    "candidate_rejected", "candidate_read_failed", "candidate_peer_rejected",
    "attachment_activated", "attachment_replaced", "attachment_read_failed",
    "attachment_input_rejected", "attachment_write_failed", "attachment_poll_hangup",
    "attachment_poll_error", "attachment_output_queue_full", "attachment_process_started",
    "runner_socket_connected", "runner_socket_connect_failed", "completed_session_replayed",
    "raw_terminal_entered", "raw_terminal_entry_failed", "signal_registration_failed",
    "attachment_received_sighup", "attachment_received_sigterm", "resize_queued",
    "resize_dimensions_unavailable", "stdin_closed", "stdin_read_failed", "attachment_poll_failed",
    "runner_socket_closed_during_write", "runner_socket_write_failed",
    "attachment_ended_after_stdin_close", "runner_socket_poll_hangup", "runner_socket_poll_error",
    "runner_socket_eof", "runner_socket_read_failed", "runner_reported_exit",
    "invalid_runner_response"]

/-- What a line may add to its event: the kind of an error and its code, or an exit. -/
inductive TraceDetail : Bytes → Prop
  | none : TraceDetail []
  | errorKind (kind : ErrorKind) : TraceDetail (ascii " error_kind=" ++ ascii (errorKind kind))
  | osError (kind : ErrorKind) (code : Nat) :
      TraceDetail (ascii " error_kind=" ++ ascii (AfkCli.errorKind kind) ++ ascii " os_error=" ++
        decimal code)
  | exitCode (code : UInt8) :
      TraceDetail (ascii " " ++ ascii "exit_code" ++ ascii "=" ++ decimal code.toNat)
  | signal (signal : UInt8) :
      TraceDetail (ascii " " ++ ascii "signal" ++ ascii "=" ++ decimal signal.toNat)

/-- A line of a trace: a time, the process, the component that writes, an event and its detail. -/
def TraceText (pid : UInt32) (component : String) (bytes : Bytes) : Prop :=
  ∃ timestamp event detail, event ∈ traceEvents ∧ TraceDetail detail ∧
    bytes = Trace.line timestamp pid.toNat component event detail

/-- The trace belongs to the component. -/
def Named (component : String) (trace : Option Trace) : Prop :=
  ∀ t ∈ trace, t.component = component

/-- No trace belongs to any component. -/
theorem named_none (component : String) : Named component none := by
  intro t ht
  cases ht

/-- A trace belongs to the component that it names. -/
theorem named_some {component : String} {trace : Trace} :
    Named component (some trace) ↔ trace.component = component := by
  constructor
  · intro h
    exact h trace rfl
  · intro h t ht
    rw [← Option.some.inj ht]
    exact h

namespace Surface

/-! ## Sets of calls -/

/-- The calls that write lines to a trace. -/
def Traces (self : Self) (component : String) : Call → Prop
  | .process (.now site) => site = .traceWrite
  | .file (.writeAll site _ bytes) => site = .traceWrite ∧ TraceText self.pid component bytes
  | _ => False

/-- The calls that look at a file. -/
def Looks : Call → Prop
  | .file (.lstat ..) | .file (.readFile ..) => True
  | _ => False

/-- The calls that leave the streams of the process alone. -/
def Streamless : Call → Prop
  | .socket (.accept _) | .socket (.connect _) | .socket (.peerUid _) => False
  | .socket (.read ..) | .socket (.write ..) | .socket (.close _) => False
  | .socket (.setReadTimeout _) | .socket (.setWriteTimeout _) => False
  | .process (.poll _) | .terminal (.pollStream ..) => False
  | _ => True

/-- The calls that open the registry: its directories, and the removal of what has expired. -/
def Opens : Call → Prop
  | .file (.lstat ..) | .file (.readFile ..) | .file .readDir => True
  | .file (.lstatDirectory _) | .file (.createDirectory ..) => True
  | .file (.setDirectoryPermissions ..) => True
  | .file (.removeFile site _) => site = .removeCompleted
  | .process (.now site) => site = .cleanupExpired
  | _ => False

/-- The name is one of the session's. -/
def Owned (session : SessionId) (name : Name) : Prop :=
  name ∈ [(sessionPaths session).socket, (sessionPaths session).metadata,
    (sessionPaths session).lock, (sessionPaths session).output, (sessionPaths session).trace]

/-- The calls that connect to a session's runner. -/
def Connects (session : SessionId) : Call → Prop
  | .file (.lstat ..) => True
  | .socket (.connect name) => name = (sessionPaths session).socket
  | .socket (.peerUid _) | .socket (.close _) => True
  | _ => False

/-- The calls that free a session's ID: probing its runner, and removing what is stale or has
expired. -/
def Frees (session : SessionId) : Call → Prop
  | .file (.lstat ..) | .file (.readFile ..) => True
  | .file (.removeFile site name) =>
    site ∈ [.removeStaleLive, .removeCompleted] ∧ Owned session name
  | .socket (.connect name) => name = (sessionPaths session).socket
  | .socket (.peerUid _) | .socket (.close _) => True
  | .process (.now site) => site = .bindSession
  | _ => False

/-- The calls that take a session: probing its runner, removing what is stale or has expired,
binding the socket and creating the lock. -/
def Takes (session : SessionId) : Call → Prop
  | .file (.lstat ..) | .file (.readFile ..) => True
  | .file (.removeFile site name) =>
    site ∈ [.removeStaleLive, .removeCompleted, .bindSession] ∧ Owned session name
  | .file (.setPermissions name _) => name = (sessionPaths session).socket
  | .file (.createNew name _) => name = (sessionPaths session).lock
  | .socket (.connect name) | .socket (.bind name) => name = (sessionPaths session).socket
  | .socket (.peerUid _) | .socket (.close _) => True
  | .socket (.listen _) | .socket (.closeListener _) | .socket (.setNonblocking ..) => True
  | .process (.now site) => site = .bindSession
  | _ => False

/-- The calls that replace a file. -/
def Replaces (self : Self) (name : Name) (bytes : Bytes) : Call → Prop
  | .file (.createNew temporary mode) => temporary = temporaryName name self.pid ∧ mode = 0o600
  | .file (.writeAll site _ written) => site = .atomicWrite ∧ written = bytes
  | .file (.syncAll _) => True
  | .file (.rename source target) => source = temporaryName name self.pid ∧ target = name
  | .file (.removeFile site temporary) =>
    site = .atomicWrite ∧ temporary = temporaryName name self.pid
  | _ => False

/-- The calls that move the terminal's output. -/
def Drains (self : Self) : Call → Prop
  | .process (.readPty _) | .socket (.close _) => True
  | op => Traces self "runner" op

/-- The calls on the terminal and the connections of a runner. -/
def Relays : Call → Prop
  | .socket (.accept _) | .socket (.peerUid _) | .socket (.setNonblocking _ true) => True
  | .socket (.read ..) | .socket (.write ..) | .socket (.close _) => True
  | .process (.readPty _) | .process (.writePty _) | .process (.setWindowSize ..) => True
  | .process (.poll _) => True
  | .note (.activated _) | .note (.inputAccepted ..) => True
  | _ => False

/-- The calls of an attachment on its terminal and its stream. -/
def Relaying (stream : Fd) : Call → Prop
  | .terminal .enterRaw | .terminal .leaveRaw | .terminal .registerSignals => False
  | .terminal (.pollStream fd _) => fd = stream
  | .terminal _ => True
  | .socket (.read fd _) | .socket (.write fd _) => fd = stream
  | _ => False

/-- The calls of an attachment's relay. -/
def Attends (self : Self) (stream : Fd) (op : Call) : Prop :=
  Relaying stream op ∨ Traces self "attachment" op

/-- The calls of the event loop, other than those that end it. -/
def Serves (ctx : RunnerContext) (op : Call) : Prop :=
  Relays op ∨ Traces ctx.self "runner" op ∨
    ∃ attached, Replaces ctx.self ctx.files.paths.metadata
      (ctx.registry.serde.toVec (ctx.liveMetadata attached)) op

section streams

variable {op : Call}

/-- A trace uses no stream. -/
theorem streamless_of_traces {self : Self} {component : String} (h : Traces self component op) :
    Streamless op := by
  unfold Traces at h
  split at h
  · exact trivial
  · exact trivial
  · exact h.elim

theorem streamless_of_looks (h : Looks op) : Streamless op := by
  unfold Looks at h
  split at h
  · exact trivial
  · exact trivial
  · exact h.elim

/-- Opening the registry uses no stream. -/
theorem streamless_of_opens (h : Opens op) : Streamless op := by
  unfold Opens at h
  split at h <;> first | exact trivial | exact h.elim

theorem streamless_of_replaces {self : Self} {name : Name} {bytes : Bytes}
    (h : Replaces self name bytes op) : Streamless op := by
  unfold Replaces at h
  split at h <;> first | exact trivial | exact h.elim

end streams

/-! ## Traces -/

section traces

variable {self : Self} {component : String} {ops : Call → Prop}

/-- A line that is written has the form of a trace line. -/
theorem within_write {trace : Trace} (hops : ∀ op, Traces self component op → ops op)
    (hcomponent : trace.component = component) {event : String} (hevent : event ∈ traceEvents)
    {detail : Bytes} (hdetail : TraceDetail detail) :
    (trace.write self event detail).Within (fun _ _ => True) ops
      fun trace' => trace'.component = component := by
  have hret : ∀ trace' : Trace, trace'.component = component →
      Program.Within (fun _ _ => True) ops (fun t => t.component = component)
        (Pure.pure trace' : Prog Trace) := fun _ => id
  have hnow : (nowSeconds .traceWrite).run.Within (fun _ _ => True) ops fun _ => True :=
    ⟨hops _ rfl, fun _ _ => trivial⟩
  unfold Trace.write
  split
  · exact hret trace hcomponent
  · apply hnow.bind
    intro timestamp _
    dsimp only
    split
    · exact hret trace hcomponent
    · have hline : ops (.file (.writeAll .traceWrite trace.file
          (Trace.line (timestamp.toOption.getD 0).toNat self.pid.toNat trace.component event
            detail))) :=
        hops _ ⟨rfl, _, event, detail, hevent, hdetail, by rw [hcomponent]⟩
      refine ⟨hline, fun r _ => ?_⟩
      rcases r with error | _
      · exact hret trace hcomponent
      · exact hret _ hcomponent

theorem within_some {p : Prog Trace}
    (hp : p.Within (fun _ _ => True) ops fun t => t.component = component) :
    (some <$> p).Within (fun _ _ => True) ops (Named component) := by
  rw [map_eq_pure_bind]
  apply hp.bind
  intro t ht
  exact named_some.mpr ht

variable {trace : Option Trace}

/-- So has the line of an event. -/
theorem within_event (hops : ∀ op, Traces self component op → ops op) (h : Named component trace)
    {event : String} (hevent : event ∈ traceEvents) :
    (traceEvent self trace event).Within (fun _ _ => True) ops (Named component) := by
  cases trace with
  | none => exact h
  | some trace => exact within_some (within_write hops (named_some.mp h) hevent .none)

/-- The line of an error has its kind, and its code if it has one. -/
theorem within_error (hops : ∀ op, Traces self component op → ops op) (h : Named component trace)
    {event : String} (hevent : event ∈ traceEvents) (error : IoError) :
    (traceIoError self trace event error).Within (fun _ _ => True) ops (Named component) := by
  cases trace with
  | none => exact h
  | some trace =>
    apply within_some
    unfold Trace.ioError
    cases error.rawOsError with
    | none => exact within_write hops (named_some.mp h) hevent (.errorKind error.kind)
    | some code => exact within_write hops (named_some.mp h) hevent (.osError error.kind code)

/-- The line of an exit has its code or its signal. -/
theorem within_exit (hops : ∀ op, Traces self component op → ops op) (h : Named component trace)
    {event : String} (hevent : event ∈ traceEvents) (exit : ProcessExit) :
    (traceProcessExit self trace event exit).Within (fun _ _ => True) ops (Named component) := by
  cases trace with
  | none => exact h
  | some trace =>
    cases exit with
    | code c => exact within_some (within_write hops (named_some.mp h) hevent (.exitCode c))
    | signal c => exact within_some (within_write hops (named_some.mp h) hevent (.signal c))

end traces

/-! ## The registry -/

section registry

variable {R : Registry} {session : SessionId} {ops : Call → Prop}

theorem looks_opens {op : Call} (h : Looks op) : Opens op := by
  unfold Looks at h
  split at h
  · exact trivial
  · exact trivial
  · exact h.elim

theorem looks_frees {op : Call} (h : Looks op) : Frees session op := by
  unfold Looks at h
  split at h
  · exact trivial
  · exact trivial
  · exact h.elim

theorem connects_frees {op : Call} (h : Connects session op) : Frees session op := by
  unfold Connects at h
  split at h
  · exact trivial
  · exact h
  · exact trivial
  · exact trivial
  · exact h.elim

/-- Freeing an ID is a part of taking it. -/
theorem frees_takes {op : Call} (h : Frees session op) : Takes session op := by
  unfold Frees at h
  split at h
  · exact trivial
  · exact trivial
  · obtain ⟨hsite, hname⟩ := h
    refine ⟨?_, hname⟩
    rcases List.mem_pair.mp hsite with rfl | rfl
    · simp
    · simp
  · exact h
  · exact trivial
  · exact trivial
  · exact h
  · exact h.elim

/-- The names of a session, when its socket's path fits. -/
theorem yields_paths : Yields ops (· = sessionPaths session) (R.paths session) := by
  by_cases hfits : R.Fits session
  · rw [Registry.paths_eq hfits]
    exact .pure rfl
  · rw [Registry.paths_error hfits]
    exact .throw _

/-- What follows the names of a session. -/
theorem only_paths_bind {α : Type} {f : SessionPaths → Io α}
    (hf : Only ops (f (sessionPaths session))) : Only ops (R.paths session >>= f) := by
  by_cases hfits : R.Fits session
  · rw [Registry.paths_eq hfits, pure_bind]
    exact hf
  · rw [Registry.paths_error hfits]
    exact .throw _

/-- Verifying a path looks at it once. -/
theorem only_verifyPath {site : Site} {name : Name} {uid mode : Nat} {kind : PathKind}
    (hops : ops (.file (.lstat site name))) : Only ops (verifyPath site name uid kind mode) := by
  unfold verifyPath
  refine Only.bind (.ask (.perform hops)) fun metadata => ?_
  exact .ask (.ret _)

/-- Reading a file of the registry looks at it, and reads it. -/
theorem only_readBoundedFile (hops : ∀ op, Looks op → ops op) {name : Name}
    {uid mode limit : Nat} {kind : PathKind} :
    Only ops (readBoundedFile name uid kind mode limit) := by
  unfold readBoundedFile
  refine Only.bind (.attempt (only_verifyPath (hops _ trivial))) ?_
  rintro (error | metadata)
  · dsimp only
    split
    · exact .pure _
    · exact .throw _
  · dsimp only
    split
    · exact .throw _
    · refine Only.bind (.ask (.perform (hops _ trivial))) fun bytes => ?_
      split
      · exact .throw _
      · exact .pure _

/-- A record is looked up by its name alone. -/
theorem only_readMetadata (hops : ∀ op, Looks op → ops op) : Only ops (R.readMetadata session) := by
  unfold Registry.readMetadata
  apply only_paths_bind
  refine Only.bind (only_readBoundedFile hops) ?_
  rintro (_ | bytes)
  · exact .pure _
  · dsimp only
    split
    · exact .throw _
    · split
      · exact .throw _
      · exact .pure _

theorem only_readOutput (hops : ∀ op, Looks op → ops op) : Only ops (R.readOutput session) := by
  unfold Registry.readOutput
  apply only_paths_bind
  exact only_readBoundedFile hops

/-- The removal of a file that may be gone. -/
theorem only_removeIfPresent {name : Name}
    (hname : ops (.file (.removeFile .removeCompleted name))) :
    Only ops (removeIfPresent name) := by
  unfold removeIfPresent
  refine Only.bind (.attempt (.ask (.perform hname))) ?_
  rintro (error | _)
  · dsimp only
    split
    · exact .pure _
    · exact .throw _
  · exact .pure _

/-- A finished session is removed file by file. -/
theorem only_removeCompleted {paths : SessionPaths}
    (hops : ∀ name ∈ [paths.output, paths.trace, paths.metadata],
      ops (.file (.removeFile .removeCompleted name))) :
    Only ops (Registry.removeCompleted paths) := by
  unfold Registry.removeCompleted
  refine Only.bind (only_removeIfPresent (hops _ (by simp))) fun _ => ?_
  refine Only.bind (only_removeIfPresent (hops _ (by simp))) fun _ => ?_
  exact only_removeIfPresent (hops _ (by simp))

/-- The sweep reads records, and removes those that have expired. -/
theorem only_cleanupNames (hops : ∀ op, Opens op → ops op) (now : UInt64)
    (names : List (Except IoError Name)) : Only ops (R.cleanupNames now names) := by
  induction names with
  | nil => exact .pure _
  | cons entry rest ih =>
    rw [Registry.cleanupNames]
    refine Only.bind (.ask (.ret _)) fun name => ?_
    split
    · exact ih
    · apply only_paths_bind
      refine Only.bind (only_readMetadata fun op h => hops op (looks_opens h)) ?_
      rintro (_ | metadata)
      · exact ih
      · dsimp only
        split
        · refine Only.bind (only_removeCompleted fun _ _ => hops _ rfl) fun _ => ?_
          exact ih
        · exact ih

/-- A private directory is made or narrowed. -/
theorem only_ensurePrivateDirectory (hops : ∀ op, Opens op → ops op) {uid : Nat} {path : Bytes}
    (rounds : Nat) : Only ops (ensurePrivateDirectory uid path rounds) := by
  induction rounds with
  | zero => exact trivial
  | succ rounds ih =>
    rw [ensurePrivateDirectory]
    refine Only.bind (.attempt (.ask (.perform (hops _ trivial)))) ?_
    rintro (error | metadata)
    · dsimp only
      split
      · refine Only.bind (.attempt (.ask (.perform (hops _ trivial)))) ?_
        rintro (error | _)
        · dsimp only
          split
          · exact ih
          · exact .throw _
        · exact .pure _
      · exact .throw _
    · dsimp only
      split
      · exact .throw _
      · split
        · exact .throw _
        · exact .ask (.perform (hops _ trivial))

/-- The registry that was opened is the process's own. -/
theorem yields_openRegistry (hops : ∀ op, Opens op → ops op) {serde : Serde} {self : Self} :
    Yields ops (fun R => R.serde = serde ∧ R.uid = self.uid) (openRegistry serde self) := by
  have htrue : ∀ {p : Io Unit}, Only ops p → Yields ops (fun _ => True) p :=
    fun hp => .of_only hp fun _ => trivial
  unfold openRegistry
  split
  · exact .throw _
  · dsimp only
    refine Yields.bind (htrue (only_ensurePrivateDirectory hops _)) fun _ _ => ?_
    refine Yields.bind (htrue (only_ensurePrivateDirectory hops _)) fun _ _ => ?_
    refine Yields.bind (htrue ?_) fun _ _ => .pure ⟨rfl, rfl⟩
    unfold Registry.cleanupExpired
    refine Only.bind (.ask (.perform (hops _ rfl))) fun now => ?_
    refine Only.bind (.ask (.perform (hops _ trivial))) fun entries => ?_
    exact only_cleanupNames hops now _

/-! ## Taking a session -/

/-- Connecting looks at the socket, and asks who listens. -/
theorem only_connect (hops : ∀ op, Connects session op → ops op) : Only ops (R.connect session) := by
  unfold Registry.connect
  apply only_paths_bind
  refine Only.bind (only_verifyPath (hops _ trivial)) fun _ => ?_
  refine Only.bind (.ask (.perform (hops _ rfl))) fun stream => ?_
  refine Only.bind (.attempt (.ask (.perform (hops _ trivial)))) ?_
  rintro (error | uid)
  · refine Only.bind (.lift (.perform (hops _ trivial))) fun _ => ?_
    exact .throw _
  · dsimp only
    split
    · refine Only.bind (.lift (.perform (hops _ trivial))) fun _ => ?_
      exact .throw _
    · exact .pure _

theorem only_connectIsOk (hops : ∀ op, Connects session op → ops op) :
    Only ops (R.connectIsOk session) := by
  unfold Registry.connectIsOk
  refine Only.bind (.attempt (only_connect hops)) ?_
  rintro (error | stream)
  · exact .pure _
  · refine Only.bind (.lift (.perform (hops _ trivial))) fun _ => ?_
    exact .pure _

/-- A stale entry is looked at before it is removed. -/
theorem only_removeOwnedEntryIfPresent (hops : ∀ op, Frees session op → Streamless op → ops op)
    {name : Name} (hname : Owned session name) {uid mode : Nat} {kind : PathKind} :
    Only ops (removeOwnedEntryIfPresent name uid kind mode) := by
  unfold removeOwnedEntryIfPresent
  refine Only.bind (.attempt (only_verifyPath (hops _ trivial trivial))) ?_
  rintro (error | metadata)
  · dsimp only
    split
    · exact .pure _
    · exact .throw _
  · exact .ask (.perform (hops _ ⟨by simp, hname⟩ trivial))

/-- The four files of a stale session. -/
theorem only_removeStaleLive (hops : ∀ op, Frees session op → Streamless op → ops op) :
    Only ops (R.removeStaleLive (sessionPaths session)) := by
  unfold Registry.removeStaleLive
  refine Only.bind (only_removeOwnedEntryIfPresent hops (by simp [Owned])) fun _ => ?_
  refine Only.bind (only_removeOwnedEntryIfPresent hops (by simp [Owned])) fun _ => ?_
  refine Only.bind (only_removeOwnedEntryIfPresent hops (by simp [Owned])) fun _ => ?_
  exact only_removeOwnedEntryIfPresent hops (by simp [Owned])

theorem only_pathEntryExists (hops : ∀ op, Looks op → ops op) {name : Name} :
    Only ops (pathEntryExists name) := by
  unfold pathEntryExists
  refine Only.bind (.attempt (.ask (.perform (hops _ trivial)))) ?_
  rintro (error | metadata)
  · dsimp only
    split
    · exact .pure _
    · exact .throw _
  · exact .pure _

/-- A probe, and what follows when it fails. -/
theorem only_probe (hops : ∀ op, Frees session op → ops op) :
    Only ops (do
      if ← R.connectIsOk session then throw sessionExists
      else R.removeStaleLive (sessionPaths session)) := by
  refine Only.bind (only_connectIsOk fun op h => hops op (connects_frees h)) fun connected => ?_
  split
  · exact .throw _
  · exact only_removeStaleLive fun op h _ => hops op h

/-- Freeing an ID takes nothing yet. -/
theorem only_clearSession (hops : ∀ op, Frees session op → ops op) :
    Only ops (R.clearSession session (sessionPaths session)) := by
  have hlooks : ∀ op, Looks op → ops op := fun op h => hops op (looks_frees h)
  unfold Registry.clearSession
  refine Only.bind (only_readMetadata hlooks) ?_
  rintro (_ | metadata)
  · dsimp only
    refine Only.bind (only_pathEntryExists hlooks) fun there => ?_
    split
    · exact only_probe hops
    · refine Only.bind (only_pathEntryExists hlooks) fun there => ?_
      split
      · exact only_probe hops
      · exact .pure _
  · dsimp only
    refine Only.bind (.ask (.perform (hops _ rfl))) fun now => ?_
    split
    · apply only_removeCompleted
      intro name hname
      refine hops _ ⟨by simp, ?_⟩
      simp only [List.mem_cons, List.not_mem_nil, or_false] at hname
      rcases hname with rfl | rfl | rfl <;> simp [Owned]
    · split
      · exact .throw _
      · exact only_probe hops

/-- Binding the socket. -/
theorem only_bindListener (hops : ∀ op, Takes session op → Streamless op → ops op) :
    Only ops (Registry.bindListener (sessionPaths session).socket) := by
  unfold Registry.bindListener
  refine Only.bind (.ask (.perform (hops _ rfl trivial))) fun listener => ?_
  refine Only.bind (.attempt (.ask (.perform (hops _ trivial trivial)))) ?_
  rintro (error | _)
  · refine Only.bind (.lift (.perform (hops _ trivial trivial))) fun _ => ?_
    exact .throw _
  · exact .pure _

/-- Locking the session. -/
theorem yields_lockSession (hops : ∀ op, Takes session op → Streamless op → ops op)
    {listener : Fd} :
    Yields ops (fun files => files.paths = sessionPaths session)
      (Registry.lockSession (sessionPaths session) listener) := by
  unfold Registry.lockSession
  refine Yields.attempt_bind (P := fun _ => True) (.of_only ?_ fun _ => trivial) ?_ ?_
  · refine Only.bind (.ask (.perform (hops _ rfl trivial))) fun _ => ?_
    refine Only.bind (.ask (.perform (hops _ trivial trivial))) fun _ => ?_
    refine Only.bind (.attempt (.ask (.perform (hops _ rfl trivial)))) ?_
    rintro (error | lock)
    · refine Only.bind (.ignore (.ask (.perform ?_))) fun _ => .throw _
      exact hops _ ⟨by simp, by simp [Owned]⟩ trivial
    · exact .pure _
  · intro lock _
    exact .pure rfl
  · intro error
    exact Yields.lift_bind (P := fun _ => True) (Calls.perform (hops _ trivial trivial))
      fun _ _ => .throw _

/-- The files that were taken are the session's. -/
theorem yields_bindSession (hops : ∀ op, Takes session op → ops op) :
    Yields ops (fun files => files.paths = sessionPaths session) (R.bindSession session) := by
  unfold Registry.bindSession
  refine Yields.bind yields_paths ?_
  rintro paths rfl
  refine Yields.bind (P := fun _ => True)
    (.of_only (only_clearSession fun op h => hops op (frees_takes h)) fun _ => trivial)
    fun _ _ => ?_
  refine Yields.attempt_bind (P := fun _ => True)
    (.of_only (only_bindListener fun op h _ => hops op h) fun _ => trivial) ?_ ?_
  · intro listener _
    exact yields_lockSession fun op h _ => hops op h
  · intro error
    dsimp only
    split
    · exact .throw _
    · exact .throw _

end registry

/-! ## Files -/

section files

variable {self : Self} {name : Name} {bytes : Bytes} {ops : Call → Prop}

/-- A file is replaced through its temporary file. -/
theorem only_atomicWrite (hops : ∀ op, Replaces self name bytes op → ops op) :
    Only ops (atomicWrite self name bytes) := by
  unfold atomicWrite
  refine Only.bind (.ask (.perform (hops _ ⟨rfl, rfl⟩))) fun fd => ?_
  apply Only.bind
  · apply Only.attempt
    refine Only.bind (.ask (.perform (hops _ ⟨rfl, rfl⟩))) fun _ => ?_
    refine Only.bind (.ask (.perform (hops _ trivial))) fun _ => ?_
    exact .ask (.perform (hops _ ⟨rfl, rfl⟩))
  · rintro (error | _)
    · refine Only.bind (.ignore (.ask (.perform (hops _ ⟨rfl, rfl⟩)))) fun _ => ?_
      exact .throw _
    · exact .pure _

/-- A record that is too long is not written. -/
theorem only_writeMetadata {R : Registry} {paths : SessionPaths} {metadata : SessionMetadata}
    (hops : ∀ op, Replaces self paths.metadata (R.serde.toVec metadata) op → ops op) :
    Only ops (R.writeMetadata self paths metadata) := by
  unfold Registry.writeMetadata
  dsimp only
  split
  · exact .throw _
  · exact only_atomicWrite hops

theorem only_writeOutput {paths : SessionPaths}
    (hops : ∀ op, Replaces self paths.output bytes op → ops op) :
    Only ops (Registry.writeOutput self paths bytes) := by
  unfold Registry.writeOutput
  split
  · exact .throw _
  · exact only_atomicWrite hops

/-- A queue makes only the writes of its writer. -/
theorem calls_flushQueue {write : Bytes → Io Nat} (hwrite : ∀ bytes, Only ops (write bytes))
    (rounds : Nat) (queue : ByteQueue) : Calls ops (flushQueue write rounds queue) := by
  induction rounds generalizing queue with
  | zero => exact .spin
  | succ rounds ih =>
    rw [flushQueue]
    split
    · exact .ret _
    · refine Calls.bind (hwrite queue.bytes) fun r => ?_
      rcases r with error | n
      · dsimp only
        split
        · exact .ret _
        · split
          · exact ih queue
          · exact .ret _
      · cases n with
        | zero => exact .ret _
        | succ n => exact ih _

/-- The calls that send to a connection. -/
def Sends (stream : Fd) : Call → Prop
  | .socket (.setNonblocking fd _) => fd = stream
  | .socket (.setWriteTimeout fd) => fd = stream
  | .socket (.write fd _) => fd = stream
  | _ => False

/-- Sending the exit never fails. -/
theorem within_sendExit {ctx : RunnerContext} {connection : Connection} {exit : ProcessExit}
    (hops : ∀ op, Sends connection.stream op → ops op) :
    (ctx.sendExit connection exit).run.Within (fun _ _ => True) ops (· = .ok ()) := by
  have hwrite : ∀ bytes, Only ops (writeStream connection.stream bytes) :=
    fun bytes => .ask (.perform (hops _ rfl))
  have hdone : ∀ r : Except IoError Unit, r = .ok () →
      Program.Within (fun _ _ => True) ops (· = .ok ()) (.ret r : Prog (Except IoError Unit)) :=
    fun _ => id
  unfold RunnerContext.sendExit
  rw [run_ignore_bind]
  refine Program.Within.bind (Calls.perform (hops _ rfl)) fun _ _ => ?_
  rw [run_ignore_bind]
  refine Program.Within.bind (Calls.perform (hops _ rfl)) fun _ _ => ?_
  rw [run_lift_bind]
  refine Program.Within.bind (calls_flushQueue hwrite _ _) ?_
  rintro ⟨output, error | _⟩ -
  · exact hdone _ rfl
  · dsimp only
    split
    · exact hdone _ rfl
    · split
      · exact hdone _ rfl
      · rw [run_lift_bind]
        exact Program.Within.bind (calls_flushQueue hwrite _ _) fun _ _ => hdone _ rfl

end files

/-! ## The event loop -/

section loop

variable {ctx : RunnerContext} {st : LoopState}

/-- The step makes calls of the event loop, and its trace stays the runner's. -/
abbrev Steps (ctx : RunnerContext) (p : Io LoopState) : Prop :=
  Yields (Serves ctx) (fun st => Named "runner" st.trace) p

theorem serves_of_relays {op : Call} (h : Relays op) : Serves ctx op := .inl h

theorem serves_of_traces (op : Call) (h : Traces ctx.self "runner" op) : Serves ctx op :=
  .inr (.inl h)

/-- Moving the output of the terminal is a part of the loop. -/
theorem serves_of_drains (op : Call) (h : Drains ctx.self op) : Serves ctx op := by
  unfold Drains at h
  split at h
  · exact serves_of_relays trivial
  · exact serves_of_relays trivial
  · exact serves_of_traces op h

theorem drains_of_traces (op : Call) (h : Traces ctx.self "runner" op) : Drains ctx.self op := by
  unfold Drains
  split
  · exact trivial
  · exact trivial
  · exact h

theorem calls_closeConnection {ops : Call → Prop} (hclose : ∀ stream, ops (.socket (.close stream)))
    (connection : Option Connection) : Calls ops (closeConnection connection) := by
  cases connection with
  | none => exact .ret ()
  | some connection => exact .perform (hclose _)

/-- Dropping the active attachment closes its stream, and traces that. -/
theorem within_dropActive {ops : Call → Prop} (hclose : ∀ stream, ops (.socket (.close stream)))
    (h : Named "runner" st.trace) :
    (dropActive st).Within (fun _ _ => True) ops (fun st => Named "runner" st.trace) :=
  Program.Within.bind (calls_closeConnection hclose st.active) fun _ _ => h

theorem within_ctx_event {ops : Call → Prop} (hops : ∀ op, Traces ctx.self "runner" op → ops op)
    (h : Named "runner" st.trace) {event : String} (hevent : event ∈ traceEvents) :
    (ctx.event st event).Within (fun _ _ => True) ops (fun st => Named "runner" st.trace) :=
  Program.Within.bind (within_event hops h hevent) fun _ ht => ht

theorem within_ctx_ioErrorEvent {ops : Call → Prop}
    (hops : ∀ op, Traces ctx.self "runner" op → ops op) (h : Named "runner" st.trace)
    {event : String} (hevent : event ∈ traceEvents) (error : IoError) :
    (ctx.ioErrorEvent st event error).Within (fun _ _ => True) ops
      (fun st => Named "runner" st.trace) :=
  Program.Within.bind (within_error hops h hevent error) fun _ ht => ht

/-- The live record is replaced. -/
theorem only_writeLive (attached : Bool) : Only (Serves ctx) (ctx.writeLive attached) :=
  only_writeMetadata fun _ h => .inr (.inr ⟨attached, h⟩)

/-- A connection that was read is the same connection. -/
theorem yields_readRecords {ops : Call → Prop} {connection : Connection}
    (hread : ∀ capacity, ops (.socket (.read connection.stream capacity))) :
    Yields ops (fun r => r.2.stream = connection.stream) (readRecords connection) := by
  unfold readRecords
  dsimp only
  split
  · exact .throw _
  · refine Yields.attempt_bind (P := fun _ => True)
      (.of_only (.ask (.perform (hread _))) fun _ => trivial) (fun bytes _ => ?_) fun error => ?_
    · split
      · exact .throw _
      · rename_i h
        obtain rfl := Except.ok.inj h
        split
        · exact .throw _
        · split
          · exact .throw _
          · exact .pure rfl
      · rename_i h
        cases h
    · dsimp only
      split
      · exact .pure rfl
      · exact .throw _

theorem only_readRecords {connection : Connection} : Only (Serves ctx) (readRecords connection) :=
  (yields_readRecords fun _ => serves_of_relays trivial).only

section window

variable {ops : Call → Prop}
  (hwindow : ∀ rows columns, ops (.process (.setWindowSize rows columns)))
include hwindow

/-- A size that is not valid is not set. -/
theorem only_setWindowSize {rows columns : UInt16} : Only ops (setWindowSize rows columns) := by
  unfold setWindowSize
  apply Only.bind
  · unfold validateDimensions
    split
    · exact .pure _
    · exact .throw _
  · intro _
    exact .ask (.perform (hwindow _ _))

/-- The records of the attachment set the size and queue input. -/
theorem only_applyActiveRecords {stream : Fd}
    (hnote : ∀ bytes, ops (.note (.inputAccepted stream bytes))) (records : List Record)
    (queue : ByteQueue) : Only ops (applyActiveRecords stream queue records) := by
  induction records generalizing queue with
  | nil => exact .pure _
  | cons record rest ih =>
    cases record with
    | input bytes =>
      rw [applyActiveRecords]
      split
      · refine Only.bind (.lift (.perform (hnote _))) fun _ => ?_
        exact ih _
      · exact .pure _
    | resize rows columns => exact Only.bind (only_setWindowSize hwindow) fun _ => ih queue
    | attach rows columns => exact .pure _
    | output bytes => exact .pure _
    | exit status => exact .pure _
    | stop => exact .pure _

end window

theorem steps_pure (h : Named "runner" st.trace) : Steps ctx (pure st) := Yields.pure h

theorem steps_event (h : Named "runner" st.trace) {event : String} (hevent : event ∈ traceEvents) :
    Steps ctx (liftM (ctx.event st event)) :=
  Yields.lift (within_ctx_event serves_of_traces h hevent)

/-- **Draining the terminal** keeps what its steps keep. -/
theorem yields_drain {ops : Call → Prop} {I : LoopState → Prop}
    (hread : ∀ n, ops (.process (.readPty n)))
    (hextend : ∀ st bytes, I st → I { st with tail := st.tail.extend bytes })
    (hqueue : ∀ st connection connection', I st → st.active = some connection →
      I { st with active := some connection' })
    (hdrop : ∀ st, I st → (dropActive st).Within (fun _ _ => True) ops I)
    (heof : ∀ st, I st → (ctx.event st "pty_eof").Within (fun _ _ => True) ops I)
    (herror : ∀ st error, ∀ event ∈ traceEvents, I st →
      (ctx.ioErrorEvent st event error).Within (fun _ _ => True) ops I)
    (rounds processed : Nat) (h : I st) : Yields ops I (ctx.drainPty rounds processed st) := by
  induction rounds generalizing processed st with
  | zero => exact trivial
  | succ rounds ih =>
    rw [RunnerContext.drainPty]
    split
    · exact Yields.pure h
    · refine Yields.attempt_bind (P := fun _ => True)
        (.of_only (.ask (.perform (hread _))) fun _ => trivial) ?_ ?_
      · intro bytes _
        cases bytes with
        | nil => exact Yields.lift (heof st h)
        | cons byte bytes =>
          have hextended := hextend st (byte :: bytes) h
          dsimp only
          split
          · exact ih _ hextended
          · rename_i connection hactive
            split
            · exact ih _ (hqueue _ _ _ hextended hactive)
            · -- the queue is full
              exact Yields.lift_bind (hdrop _ hextended) fun _ hst => ih _ hst
      · intro error
        dsimp only
        split
        · exact Yields.pure h
        · split
          · exact Yields.lift (herror st error _ (by decide) h)
          · split
            · exact ih _ h
            · exact Yields.lift_bind (herror st error _ (by decide) h) fun _ _ => .throw _

/-- The output of the terminal is moved to the tail and to the attachment. -/
theorem yields_drainPty (rounds processed : Nat) (h : Named "runner" st.trace) :
    Yields (Drains ctx.self) (fun st => Named "runner" st.trace)
      (ctx.drainPty rounds processed st) :=
  yields_drain (I := fun st => Named "runner" st.trace) (fun _ => trivial) (fun _ _ h => h)
    (fun _ _ _ h _ => h) (fun _ h => within_dropActive (fun _ => trivial) h)
    (fun _ h => within_ctx_event drains_of_traces h (by decide))
    (fun _ error _ hevent h => within_ctx_ioErrorEvent drains_of_traces h hevent error)
    rounds processed h

theorem steps_drainPty (rounds processed : Nat) (h : Named "runner" st.trace) :
    Steps ctx (ctx.drainPty rounds processed st) :=
  Program.Within.mono (yields_drainPty rounds processed h) (fun _ _ _ => trivial) serves_of_drains
    fun _ hr => hr

/-- A candidate is accepted, or closed again. -/
theorem steps_acceptCandidate (rounds : Nat) (h : Named "runner" st.trace) :
    Steps ctx (ctx.acceptCandidate rounds st) := by
  have hclose : ∀ (stream : Fd) (error : IoError), Steps ctx (do
      socket (.close stream)
      throw error) := fun stream error =>
    .mono (P := fun _ => False) (.bind (P := fun _ => True)
      (.of_only (.lift (.perform (serves_of_relays trivial))) fun _ => trivial)
        fun _ _ => .throw _) fun _ hfalse => hfalse.elim
  induction rounds generalizing st with
  | zero => exact trivial
  | succ rounds ih =>
    rw [RunnerContext.acceptCandidate]
    refine Yields.attempt_bind (P := fun _ => True)
      (.of_only (.ask (.perform (serves_of_relays trivial))) fun _ => trivial) ?_ ?_
    · intro stream _
      refine Yields.attempt_bind (P := fun _ => True)
        (.of_only (.ask (.perform (serves_of_relays trivial))) fun _ => trivial) ?_ ?_
      · intro uid _
        dsimp only
        split
        · apply Yields.lift_bind (within_ctx_event serves_of_traces h (by decide))
          intro st hst
          refine Yields.lift_bind (P := fun _ => True)
            (Calls.perform (serves_of_relays trivial)) ?_
          intro _ _
          exact ih hst
        · refine Yields.attempt_bind (P := fun _ => True)
            (.of_only (.ask (.perform (serves_of_relays trivial))) fun _ => trivial) ?_ ?_
          · intro _ _
            refine Yields.bind (P := fun st => Named "runner" st.trace) ?_ ?_
            · split
              · exact steps_event h (by decide)
              · exact steps_pure h
            · intro st hst
              apply Yields.lift_bind (within_ctx_event serves_of_traces hst (by decide))
              intro st hst
              refine Yields.lift_bind (P := fun _ => True)
                (calls_closeConnection (fun _ => serves_of_relays trivial) _) ?_
              intro _ _
              exact ih hst
          · intro error
            exact hclose stream error
      · intro error
        exact hclose stream error
    · intro error
      dsimp only
      split
      · exact steps_pure h
      · exact .throw _

/-- The records of the active attachment are read and applied. -/
theorem steps_readActive {connection : Connection} (h : Named "runner" st.trace) :
    Steps ctx (ctx.readActive connection st) := by
  unfold RunnerContext.readActive
  refine Yields.attempt_bind (P := fun _ => True) (.of_only only_readRecords fun _ => trivial) ?_ ?_
  · rintro ⟨records, connection⟩ _
    dsimp only
    refine Yields.bind (P := fun _ => True)
      (.of_only (only_applyActiveRecords (fun _ _ => serves_of_relays trivial)
        (fun _ => serves_of_relays trivial) _ _) fun _ => trivial) ?_
    rintro ⟨accepted, ptyInput⟩ _
    dsimp only
    split
    · exact steps_pure h
    · have hread : Named "runner"
          ({ st with ptyInput, active := some connection } : LoopState).trace := h
      apply Yields.lift_bind (within_ctx_event serves_of_traces hread (by decide))
      intro st hst
      exact Yields.lift (within_dropActive (fun _ => serves_of_relays trivial) hst)
  · intro error
    apply Yields.lift_bind (within_ctx_ioErrorEvent serves_of_traces h (by decide) error)
    intro st hst
    exact Yields.lift (within_dropActive (fun _ => serves_of_relays trivial) hst)

/-- Flushing the input writes to the terminal. -/
theorem within_flushPtyInput (h : Named "runner" st.trace) :
    (ctx.flushPtyInput st).Within (fun _ _ => True) (Serves ctx)
      (fun st => Named "runner" st.trace) := by
  unfold RunnerContext.flushPtyInput
  have hwrite : ∀ bytes, Only (Serves ctx) (writePty bytes) :=
    fun bytes => .ask (.perform (serves_of_relays trivial))
  refine Program.Within.bind (calls_flushQueue hwrite _ _) ?_
  rintro ⟨ptyInput, error | _⟩ _
  · have hwritten : Named "runner" ({ st with ptyInput } : LoopState).trace := h
    refine Program.Within.bind
      (within_ctx_ioErrorEvent serves_of_traces hwritten (by decide) error) ?_
    intro st hst
    exact within_dropActive (fun _ => serves_of_relays trivial) hst
  · exact h

/-- Flushing the output writes to the attachment. -/
theorem within_flushActive {connection : Connection} (h : Named "runner" st.trace) :
    (ctx.flushActive connection st).Within (fun _ _ => True) (Serves ctx)
      (fun st => Named "runner" st.trace) := by
  unfold RunnerContext.flushActive
  have hwrite : ∀ bytes, Only (Serves ctx) (writeStream connection.stream bytes) :=
    fun bytes => .ask (.perform (serves_of_relays trivial))
  refine Program.Within.bind (calls_flushQueue hwrite _ _) ?_
  rintro ⟨output, error | _⟩ _
  · refine Program.Within.bind (within_ctx_ioErrorEvent serves_of_traces h (by decide) error) ?_
    intro st hst
    exact within_dropActive (fun _ => serves_of_relays trivial) hst
  · exact h

/-- What is ready of the active attachment. -/
theorem steps_handleActive (event : PollFlags) (h : Named "runner" st.trace) :
    Steps ctx (ctx.handleActive event st) := by
  unfold RunnerContext.handleActive
  refine Yields.bind (P := fun st => Named "runner" st.trace) ?_ fun st h => ?_
  · split
    · exact steps_event h (by decide)
    · exact steps_pure h
  refine Yields.bind (P := fun st => Named "runner" st.trace) ?_ fun st h => ?_
  · split
    · exact steps_event h (by decide)
    · exact steps_pure h
  refine Yields.bind (P := fun st => Named "runner" st.trace) ?_ fun st h => ?_
  · unfold RunnerContext.writeIfReady
    split
    · split
      · exact Yields.lift (within_flushActive h)
      · exact steps_pure h
    · exact steps_pure h
  refine Yields.bind (P := fun st => Named "runner" st.trace) ?_ fun st h => ?_
  · unfold RunnerContext.readIfReady
    split
    · split
      · exact steps_readActive h
      · exact steps_pure h
    · exact steps_pure h
  refine Yields.bind (P := fun _ => True) (.of_only ?_ fun _ => trivial) fun _ _ => steps_pure h
  split
  · exact only_writeLive false
  · exact .pure _

/-- A candidate becomes the attachment. -/
theorem steps_activate {connection : Connection} {rows columns : UInt16} {remaining : List Record}
    (h : Named "runner" st.trace) :
    Steps ctx (ctx.activate connection rows columns remaining st) := by
  unfold RunnerContext.activate
  refine Yields.bind (P := fun _ => True)
    (.of_only (only_setWindowSize fun _ _ => serves_of_relays trivial) fun _ => trivial) ?_
  intro _ _
  refine Yields.bind (P := fun _ => True) (.of_only (.ask (.ret _)) fun _ => trivial) ?_
  intro connection _
  refine Yields.bind (P := fun _ => True)
    (.of_only (only_applyActiveRecords (fun _ _ => serves_of_relays trivial)
      (fun _ => serves_of_relays trivial) _ _) fun _ => trivial) ?_
  rintro ⟨accepted, ptyInput⟩ _
  have happlied : Named "runner" ({ st with ptyInput } : LoopState).trace := h
  dsimp only
  split
  · refine Yields.bind (P := fun st => Named "runner" st.trace) ?_ fun st h => ?_
    · split
      · exact steps_event happlied (by decide)
      · exact steps_pure happlied
    have hevent : "attachment_activated" ∈ traceEvents := by decide
    refine Yields.lift_bind (within_ctx_event serves_of_traces h hevent) fun st h => ?_
    refine Yields.lift_bind (P := fun _ => True)
      (Calls.perform (serves_of_relays trivial)) ?_
    intro _ _
    refine Yields.lift_bind (P := fun _ => True)
      (calls_closeConnection (fun _ => serves_of_relays trivial) _) ?_
    intro _ _
    exact Yields.bind (P := fun _ => True) (.of_only (only_writeLive true) fun _ => trivial)
      fun _ _ => steps_pure h
  · exact Yields.lift_bind (P := fun _ => True)
      (Calls.perform (serves_of_relays trivial))
      fun _ _ => steps_pure h

theorem steps_outputQueueFull (h : Named "runner" st.trace) : Steps ctx (ctx.outputQueueFull st) := by
  unfold RunnerContext.outputQueueFull
  apply Yields.lift_bind (within_ctx_event serves_of_traces h (by decide))
  intro st h
  exact Yields.bind (P := fun _ => True) (.of_only (only_writeLive false) fun _ => trivial)
    fun _ _ => steps_pure h

end loop

/-! ## The relay -/

section relay

variable {self : Self} {stream : Fd} {st : AttachState}

theorem attends_of_relaying {op : Call} (h : Relaying stream op) : Attends self stream op := .inl h

theorem attends_of_traces (op : Call) (h : Traces self "attachment" op) : Attends self stream op :=
  .inr h

theorem yields_attachEvent {trace : Option Trace} (h : Named "attachment" trace) {event : String}
    (hevent : event ∈ traceEvents) :
    (traceEvent self trace event).Within (fun _ _ => True) (Attends self stream)
      (Named "attachment") := within_event attends_of_traces h hevent

theorem yields_attachError {trace : Option Trace} (h : Named "attachment" trace) {event : String}
    (hevent : event ∈ traceEvents) (error : IoError) :
    (traceIoError self trace event error).Within (fun _ _ => True) (Attends self stream)
      (Named "attachment") := within_error attends_of_traces h hevent error

/-- An error is traced, and passed on. -/
theorem yields_fail {α : Type} {Q : α → Prop} {trace : Option Trace}
    (h : Named "attachment" trace) {event : String} (hevent : event ∈ traceEvents)
    (error : IoError) :
    Yields (Attends self stream) Q (do
      let _ ← traceIoError self trace event error
      throw error) :=
  Yields.lift_bind (yields_attachError h hevent error) fun _ _ => .throw _

/-- The state of the relay keeps its trace. -/
abbrev Keeps (self : Self) (stream : Fd) (p : Io AttachState) : Prop :=
  Yields (Attends self stream) (fun st => Named "attachment" st.trace) p

theorem only_windowSize {ops : Call → Prop} (hops : ops (.terminal .windowSize)) :
    Only ops windowSize := by
  unfold windowSize
  refine Only.bind (.ask (.perform hops)) fun size => ?_
  apply Only.bind
  · unfold validateDimensions
    split
    · exact .pure _
    · exact .throw _
  · intro _
    exact .pure _

theorem keeps_queueResize (h : Named "attachment" st.trace) :
    Keeps self stream (queueResize self st) := by
  unfold queueResize
  refine Yields.attempt_bind (P := fun _ => True)
    (.of_only (only_windowSize (attends_of_relaying trivial)) fun _ => trivial) ?_ ?_
  · rintro ⟨rows, columns⟩ _
    refine Yields.bind (P := fun _ => True) (.of_only (.ask (.ret _)) fun _ => trivial) ?_
    intro socketOutput _
    exact Yields.lift_bind (yields_attachEvent h (by decide)) fun trace ht => .pure ht
  · intro error
    exact Yields.lift_bind (yields_attachEvent h (by decide)) fun trace ht => .pure ht

/-- Typed bytes are read from the terminal. -/
theorem only_receiveInput (queue : ByteQueue) :
    Only (Attends self stream) (receiveInput queue) := by
  unfold receiveInput
  refine Only.bind (.lift (.perform (attends_of_relaying trivial))) fun event => ?_
  cases event with
  | bytes bytes =>
    refine Only.bind (.ask (.ret _)) fun queue => ?_
    exact .pure _
  | closed => exact .pure _
  | disconnected => exact .pure _
  | failed error => exact .throw _
  | empty => exact .pure _

theorem keeps_pollInput (h : Named "attachment" st.trace) :
    Keeps self stream (pollInput self st) := by
  unfold pollInput
  split
  · exact .pure h
  · refine Yields.attempt_bind (P := fun _ => True)
      (.of_only (only_receiveInput _) fun _ => trivial) ?_ fun error => ?_
    · rintro ⟨closed, socketOutput⟩ _
      refine Yields.bind (P := Named "attachment") ?_ fun trace ht => .pure ht
      split
      · exact Yields.lift (yields_attachEvent h (by decide))
      · exact .pure h
    · exact yields_fail h (by decide) error

/-- Replies are read from the stream. -/
theorem only_readReplies (decoder : Decoder) :
    Only (Attends self stream) (readReplies stream decoder) := by
  unfold readReplies
  dsimp only
  split
  · exact .throw _
  · refine Only.bind (.attempt (.ask (.perform (attends_of_relaying rfl)))) fun r => ?_
    split
    · exact .pure _
    · split
      · exact .throw _
      · split
        · exact .throw _
        · exact .pure _
    · split
      · exact .pure _
      · split
        · exact .pure _
        · exact .throw _

/-- Output records are shown on the terminal. -/
theorem only_showRecords {trace : Option Trace} (h : Named "attachment" trace)
    (records : List Record) (wrote : Bool) :
    Only (Attends self stream) (showRecords self trace wrote records) := by
  have hinvalid : Only (Attends self stream) (do
      let _ ← traceEvent self trace "invalid_runner_response"
      throw (IoError.new .invalidData "invalid runner response") :
        Io (Option ProcessExit × Bool)) := by
    refine Only.bind (.lift ?_) fun _ => .throw _
    exact .of_within (yields_attachEvent h (by decide))
  induction records generalizing wrote with
  | nil => exact .pure _
  | cons record rest ih =>
    cases record with
    | output bytes =>
      refine Only.bind (.ask (.perform (attends_of_relaying trivial))) fun _ => ?_
      exact ih true
    | exit status =>
      refine Only.bind (.lift ?_) fun _ => ?_
      · exact .of_within (within_exit attends_of_traces h (by decide) status)
      · refine Only.bind (.ask (.perform (attends_of_relaying trivial))) fun _ => ?_
        exact .pure _
    | attach rows columns => exact hinvalid
    | resize rows columns => exact hinvalid
    | input bytes => exact hinvalid
    | stop => exact hinvalid

/-- A turn of the relay keeps the trace. -/
def Continues : AttachTurn → Prop
  | .again st => Named "attachment" st.trace
  | .done _ => True

abbrev Turns (self : Self) (stream : Fd) (p : Io AttachTurn) : Prop :=
  Yields (Attends self stream) Continues p

theorem turns_done {trace : Option Trace} (h : Named "attachment" trace) {event : String}
    (hevent : event ∈ traceEvents) (exit : ProcessExit) :
    Turns self stream (do
      let _ ← traceEvent self trace event
      return .done exit) :=
  Yields.lift_bind (yields_attachEvent h hevent) fun _ _ => .pure trivial

theorem turns_receiveReplies {events : PollFlags} (h : Named "attachment" st.trace) :
    Turns self stream (receiveReplies self stream events st) := by
  unfold receiveReplies
  refine Yields.bind (P := Named "attachment") ?_ fun trace h => ?_
  · split
    · exact Yields.lift (yields_attachEvent h (by decide))
    · exact .pure h
  refine Yields.bind (P := Named "attachment") ?_ fun trace h => ?_
  · split
    · exact Yields.lift (yields_attachEvent h (by decide))
    · exact .pure h
  refine Yields.attempt_bind (P := fun _ => True)
    (.of_only (only_readReplies _) fun _ => trivial) ?_ fun error => ?_
  · rintro (_ | ⟨records, decoder⟩) _
    · exact turns_done h (by decide) _
    · refine Yields.bind (P := fun _ => True)
        (.of_only (only_showRecords h _ _) fun _ => trivial) ?_
      rintro ⟨_ | status, wrote⟩ _
      · refine Yields.bind (P := fun _ => True) (.of_only ?_ fun _ => trivial)
          fun _ _ => .pure h
        split
        · exact .ask (.perform (attends_of_relaying trivial))
        · exact .pure _
      · exact .pure trivial
  · exact yields_fail h (by decide) error

theorem turns_relay {events : PollFlags} (h : Named "attachment" st.trace) :
    Turns self stream (relay self stream events st) := by
  have hwrite : ∀ bytes, Only (Attends self stream) (writeStream stream bytes) :=
    fun bytes => .ask (.perform (attends_of_relaying rfl))
  unfold relay
  refine Yields.bind (P := fun _ => True) (.of_only ?_ fun _ => trivial) ?_
  · split
    · exact .lift (calls_flushQueue hwrite _ _)
    · exact .pure _
  · rintro ⟨socketOutput, error | _⟩ _
    · dsimp only
      split
      · exact Yields.lift_bind (yields_attachError h (by decide) error) fun _ _ => .pure trivial
      · exact yields_fail h (by decide) error
    · have hflushed : Named "attachment" ({ st with socketOutput } : AttachState).trace := h
      dsimp only
      split
      · exact turns_done hflushed (by decide) _
      · split
        · exact turns_receiveReplies hflushed
        · exact .pure hflushed

/-- A turn of the attachment. -/
theorem turns_attachTurn (h : Named "attachment" st.trace) :
    Turns self stream (attachTurn self stream st) := by
  unfold attachTurn
  refine Yields.lift_bind (P := fun _ => True)
    (Calls.perform (attends_of_relaying trivial)) fun hangup _ => ?_
  split
  · exact turns_done h (by decide) _
  refine Yields.lift_bind (P := fun _ => True)
    (Calls.perform (attends_of_relaying trivial)) fun terminate _ => ?_
  split
  · exact turns_done h (by decide) _
  refine Yields.lift_bind (P := fun _ => True)
    (Calls.perform (attends_of_relaying trivial)) fun resized _ => ?_
  refine Yields.bind (P := fun st => Named "attachment" st.trace) ?_ fun st h => ?_
  · split
    · exact keeps_queueResize h
    · exact .pure h
  refine Yields.bind (keeps_pollInput h) fun st h => ?_
  refine Yields.attempt_bind (P := fun _ => True)
    (.of_only (.ask (.perform (attends_of_relaying rfl))) fun _ => trivial) ?_ fun error => ?_
  · intro events _
    exact turns_relay h
  · dsimp only
    split
    · exact .pure h
    · exact yields_fail h (by decide) error

/-- All its turns. -/
theorem only_attachLoop (rounds : Nat) (h : Named "attachment" st.trace) :
    Only (Attends self stream) (attachLoop self stream rounds st) := by
  have hloop : Yields (Attends self stream) (fun _ => True) (attachLoop self stream rounds st) := by
    induction rounds generalizing st with
    | zero => exact trivial
    | succ rounds ih =>
      rw [attachLoop]
      refine Yields.bind (turns_attachTurn h) fun turn hturn => ?_
      cases turn with
      | again st => exact ih hturn
      | done exit => exact .pure trivial
  exact hloop.only

end relay

end Surface

end AfkCli
