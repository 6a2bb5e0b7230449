import AfkCli.Session
import AfkCli.Surface

/-!
# The calls of each command

What a runner and a client can call once the registry is open, with the names of the files and the
lines of the traces. A runner creates, replaces and removes only files of its own session; a client
changes no file but a trace, to which it appends.

## Main definitions

* `Surface.Hosts`: the calls of a runner
* `Surface.Joins`: the calls of a client

## Main results

* `Surface.only_hosting`: the runner, from taking its session to the end
* `Surface.only_attaching`, `Surface.only_stopping`, `Surface.only_launchRunner`: the clients
-/

namespace AfkCli

open Interaction

namespace Surface

/-! ## Sets of calls -/

/-- The name is of a temporary file that replaces one of the session's records. -/
def Temporary (self : Self) (session : SessionId) (name : Name) : Prop :=
  ∃ target ∈ [(sessionPaths session).metadata, (sessionPaths session).output],
    name = temporaryName target self.pid

/-- The calls of a runner, once the registry is open. -/
def Hosts (self : Self) (session : SessionId) : Call → Prop
  | .file (.lstat ..) | .file (.readFile ..) | .file (.syncAll _) => True
  | .file (.createNew name _) =>
    name = (sessionPaths session).lock ∨ name = (sessionPaths session).trace ∨
      Temporary self session name
  | .file (.writeAll site _ bytes) =>
    site = .atomicWrite ∨ site = .traceWrite ∧ TraceText self.pid "runner" bytes
  | .file (.rename source target) =>
    target ∈ [(sessionPaths session).metadata, (sessionPaths session).output] ∧
      source = temporaryName target self.pid
  | .file (.removeFile _ name) => Owned session name ∨ Temporary self session name
  | .file (.setPermissions name _) => name = (sessionPaths session).socket
  | .file _ => False
  | .socket (.connect name) | .socket (.bind name) => name = (sessionPaths session).socket
  | .socket _ => True
  | .process (.spawnRunner _) | .process (.sendStartup _) => False
  | .process .recvResponse | .process .waitRunner => False
  | .process _ => True
  | .terminal _ => False
  | .note _ => True

/-- The calls of a client, once the registry is open. -/
def Joins (self : Self) (session : SessionId) : Call → Prop
  | .file (.lstat ..) | .file (.readFile ..) => True
  | .file (.openAppend name) => name = (sessionPaths session).trace
  | .file (.writeAll site _ bytes) => site = .traceWrite ∧ TraceText self.pid "attachment" bytes
  | .file _ => False
  | .socket (.connect name) => name = (sessionPaths session).socket
  | .socket (.bind _) | .socket (.listen _) | .socket (.accept _) => False
  | .socket (.closeListener _) => False
  | .socket _ => True
  | .process (.now site) => site = .traceWrite
  | .process (.spawnRunner started) => started = session
  | .process (.sendStartup _) | .process .recvResponse | .process .waitRunner => True
  | .process _ => False
  | .terminal _ => True
  | .note _ => False

/-! ## The runner -/

section hosting

variable {self : Self} {session : SessionId}

/-- Taking its session is a call of the runner. -/
theorem hosts_of_takes (op : Call) (h : Takes session op) : Hosts self session op := by
  unfold Takes at h
  split at h
  · exact trivial
  · exact trivial
  · exact .inl h.2
  · exact h
  · exact .inl h
  · exact h
  · exact h
  · exact trivial
  · exact trivial
  · exact trivial
  · exact trivial
  · exact trivial
  · exact trivial
  · exact h.elim

/-- Its trace is. -/
theorem hosts_of_traces (op : Call) (h : Traces self "runner" op) : Hosts self session op := by
  unfold Traces at h
  split at h
  · exact trivial
  · exact .inr h
  · exact h.elim

/-- A runner's trace is among its calls that leave the streams alone. -/
theorem streamless_traces {ops : Call → Prop}
    (hops : ∀ op, Hosts self session op → Streamless op → ops op) (op : Call)
    (h : Traces self "runner" op) : ops op :=
  hops op (hosts_of_traces op h) (streamless_of_traces h)

theorem hosts_of_replaces {name : Name} {bytes : Bytes}
    (hname : name ∈ [(sessionPaths session).metadata, (sessionPaths session).output]) (op : Call)
    (h : Replaces self name bytes op) : Hosts self session op := by
  unfold Replaces at h
  split at h
  · exact .inr (.inr ⟨name, hname, h.1⟩)
  · exact .inl h.1
  · exact trivial
  · obtain ⟨rfl, rfl⟩ := h
    exact ⟨hname, rfl⟩
  · exact .inr ⟨name, hname, h.2⟩
  · exact h.elim

/-- The terminal and the connections are. -/
theorem hosts_of_relays (op : Call) (h : Relays op) : Hosts self session op := by
  unfold Relays at h
  split at h <;> first | exact trivial | exact h.elim

/-- Dropping the files removes the socket and the lock, and closes the listener. -/
theorem only_drop {ops : Call → Prop}
    (hops : ∀ op, Hosts self session op → Streamless op → ops op)
    {files : SessionFiles} (hpaths : files.paths = sessionPaths session) : Only ops files.drop := by
  unfold SessionFiles.drop
  rw [hpaths]
  have hremove : ∀ name, Owned session name →
      Only ops (ignore (ask (file (.removeFile .dropSessionFiles name)))) :=
    fun name hname => .ignore (.ask (.perform (hops _ (.inl hname) trivial)))
  refine Only.bind (hremove _ (by simp [Owned])) fun _ => ?_
  refine Only.bind (hremove _ (by simp [Owned])) fun _ => ?_
  exact .lift (.perform (hops _ trivial trivial))

variable {ctx : RunnerContext} {st : LoopState}

/-- The runner has taken its session. -/
structure Hosting (process : Self) (session : SessionId) (ctx : RunnerContext) : Prop where
  own : ctx.self = process
  paths : ctx.files.paths = sessionPaths session

/-- The calls of the event loop are calls of the runner. -/
theorem Hosting.serves (h : Hosting self session ctx) (op : Call) (hop : Serves ctx op) :
    Hosts self session op := by
  rcases hop with hop | hop | ⟨attached, hop⟩
  · exact hosts_of_relays op hop
  · rw [h.own] at hop
    exact hosts_of_traces op hop
  · rw [h.own, h.paths] at hop
    exact hosts_of_replaces (by simp) op hop

theorem Hosting.traces (h : Hosting self session ctx) (op : Call)
    (hop : Traces ctx.self "runner" op) : Hosts self session op :=
  h.serves op (serves_of_traces op hop)

/-- The step makes calls of a runner, and its trace stays the runner's. -/
abbrev HostsStep (self : Self) (session : SessionId) (p : Io LoopState) : Prop :=
  Yields (Hosts self session) (fun st => Named "runner" st.trace) p

theorem Hosting.step {p : Io LoopState} (h : Hosting self session ctx) (hp : Steps ctx p) :
    HostsStep self session p :=
  Program.Within.mono hp (fun _ _ => id) h.serves fun _ hr => hr

theorem Hosting.only {α : Type} {p : Io α} (h : Hosting self session ctx)
    (hp : Only (Serves ctx) p) : Only (Hosts self session) p := hp.mono h.serves

/-- The live record is the session's own. -/
theorem Hosting.only_writeLive {ops : Call → Prop} (h : Hosting self session ctx)
    (hops : ∀ op, Hosts self session op → Streamless op → ops op) (attached : Bool) :
    Only ops (ctx.writeLive attached) := by
  unfold RunnerContext.writeLive
  rw [h.own, h.paths]
  apply only_writeMetadata
  intro op hop
  exact hops op (hosts_of_replaces (by simp) op hop) (streamless_of_replaces hop)

theorem Hosting.event (hctx : Hosting self session ctx) (h : Named "runner" st.trace)
    {event : String} (hevent : event ∈ traceEvents) :
    (ctx.event st event).Within (fun _ _ => True) (Hosts self session)
      (fun st => Named "runner" st.trace) := within_ctx_event hctx.traces h hevent

theorem Hosting.ioError (hctx : Hosting self session ctx) (h : Named "runner" st.trace)
    {event : String} (hevent : event ∈ traceEvents) (error : IoError) :
    (ctx.ioErrorEvent st event error).Within (fun _ _ => True) (Hosts self session)
      (fun st => Named "runner" st.trace) := within_ctx_ioErrorEvent hctx.traces h hevent error

theorem hosts_dropCandidate (h : Named "runner" st.trace) :
    (dropCandidate st).Within (fun _ _ => True) (Hosts self session)
      (fun st => Named "runner" st.trace) :=
  Program.Within.bind (calls_closeConnection (fun _ => trivial) st.candidate) fun _ _ => h

/-- What a step that may stop the session keeps. -/
abbrev HostsTurn (self : Self) (session : SessionId) (p : Io (Bool × LoopState)) : Prop :=
  Yields (Hosts self session) (fun r => Named "runner" r.2.trace) p

/-- What is ready of the candidate. -/
theorem hosts_handleCandidate {connection : Connection} (hctx : Hosting self session ctx)
    (h : Named "runner" st.trace) :
    HostsTurn self session (ctx.handleCandidate connection st) := by
  have hdismiss : HostsTurn self session (ctx.dismissCandidate st) := by
    unfold RunnerContext.dismissCandidate
    refine Yields.lift_bind (hctx.event h (by decide)) fun st h => ?_
    exact Yields.lift_bind (hosts_dropCandidate h) fun st h => .pure h
  unfold RunnerContext.handleCandidate
  refine Yields.attempt_bind (P := fun _ => True)
    (.of_only (hctx.only only_readRecords) fun _ => trivial) ?_ ?_
  · rintro ⟨records, connection⟩ -
    cases records with
    | nil => exact .pure h
    | cons record remaining =>
      cases record with
      | attach rows columns =>
        have hactivate : Steps ctx
            (ctx.activate connection rows columns remaining { st with candidate := none }) :=
          steps_activate h
        exact Yields.bind (hctx.step hactivate) fun st h => .pure h
      | stop =>
        cases remaining with
        | nil =>
          refine Yields.lift_bind (hctx.event h (by decide)) fun st h => ?_
          refine Yields.lift_bind (hosts_dropCandidate h) fun st h => ?_
          refine Yields.lift_bind (P := fun _ => True) (Calls.perform trivial) fun _ _ => ?_
          exact .pure h
        | cons => exact hdismiss
      | input bytes => exact hdismiss
      | resize rows columns => exact hdismiss
      | output bytes => exact hdismiss
      | exit status => exact hdismiss
  · intro error
    refine Yields.lift_bind (hctx.ioError h (by decide) error) fun st h => ?_
    exact Yields.lift_bind (hosts_dropCandidate h) fun st h => .pure h

/-- What is ready of all. -/
theorem hosts_handleEvents {events : PollReply} {polled : PollRequest}
    (hctx : Hosting self session ctx) (h : Named "runner" st.trace) :
    HostsTurn self session (ctx.handleEvents events polled st) := by
  unfold RunnerContext.handleEvents
  refine Yields.bind (P := fun st => Named "runner" st.trace) ?_ fun st h => ?_
  · split
    · exact hctx.step (Yields.lift (within_flushPtyInput h))
    · exact .pure h
  refine Yields.bind (P := fun st => Named "runner" st.trace) ?_ fun st h => ?_
  · split
    · exact hctx.step (steps_handleActive _ h)
    · exact .pure h
  refine Yields.bind (P := fun st => Named "runner" st.trace) ?_ fun st h => ?_
  · split
    · exact hctx.step (steps_acceptCandidate _ h)
    · exact .pure h
  split
  · split
    · exact hosts_handleCandidate hctx h
    · exact .pure h
  · exact .pure h

/-- The state that a turn of the loop ends in. -/
def Turn.Hosted : Turn → Prop
  | .again st | .exited st _ | .stopRequested st => Named "runner" st.trace

/-- A turn of the loop. -/
theorem hosts_tick (hctx : Hosting self session ctx) (h : Named "runner" st.trace) :
    Yields (Hosts self session) Turn.Hosted (ctx.tick st) := by
  unfold RunnerContext.tick
  refine Yields.bind (hctx.step (steps_drainPty _ _ h)) fun st h => ?_
  refine Yields.bind (P := fun st => Named "runner" st.trace) ?_ fun st h => ?_
  · split
    · exact hctx.step (steps_outputQueueFull h)
    · exact .pure h
  refine Yields.bind (P := fun _ => True) (.of_only (.ask (.perform trivial)) fun _ => trivial) ?_
  rintro (_ | status) -
  · refine Yields.attempt_bind (P := fun _ => True)
      (.of_only (.ask (.perform trivial)) fun _ => trivial) ?_ ?_
    · intro events _
      refine Yields.bind (hosts_handleEvents hctx h) ?_
      rintro ⟨stop, st⟩ h
      cases stop
      · exact .pure h
      · exact .pure h
    · intro error
      dsimp only
      split
      · exact .pure h
      · exact Yields.lift_bind (hctx.ioError h (by decide) error) fun _ _ => .throw _
  · exact Yields.lift_bind (hctx.event h (by decide)) fun st h => .pure h

/-- All its turns. -/
theorem hosts_eventLoop (hctx : Hosting self session ctx) (rounds : Nat)
    (h : Named "runner" st.trace) :
    Yields (Hosts self session) Turn.Hosted (ctx.eventLoop rounds st) := by
  induction rounds generalizing st with
  | zero => exact trivial
  | succ rounds ih =>
    rw [RunnerContext.eventLoop]
    refine Yields.bind (hosts_tick hctx h) fun turn hturn => ?_
    cases turn with
    | again st => exact ih hturn
    | exited st exit => exact .pure hturn
    | stopRequested st => exact .pure hturn

theorem only_awaitChild {ops : Call → Prop}
    (hops : ∀ op, Hosts self session op → Streamless op → ops op)
    (rounds : Nat) : Only ops (RunnerContext.awaitChild rounds) := by
  induction rounds with
  | zero => exact trivial
  | succ rounds ih =>
    rw [RunnerContext.awaitChild]
    refine Only.bind (.lift (.perform (hops _ trivial trivial))) fun passed => ?_
    split
    · exact .pure _
    · refine Only.bind (.ask (.perform (hops _ trivial trivial))) ?_
      rintro (_ | status)
      · exact Only.bind (.lift (.perform (hops _ trivial trivial))) fun _ => ih
      · exact .pure _

/-- The child is asked to end, and killed when it does not. -/
theorem only_stopChild {ops : Call → Prop}
    (hops : ∀ op, Hosts self session op → Streamless op → ops op) :
    Only ops ctx.stopChild := by
  have hcall : ∀ call : ProcessCall, Hosts self session (.process call) →
      Streamless (.process call) → Calls ops (process call) := fun _ h h' => .perform (hops _ h h')
  unfold RunnerContext.stopChild
  refine Only.bind (.ask (hcall _ trivial trivial)) ?_
  rintro (_ | status)
  · refine Only.bind (.ask (hcall _ trivial trivial)) fun _ => ?_
    refine Only.bind (only_awaitChild hops _) ?_
    rintro (_ | status)
    -- the child is still there at the end of the grace period
    · refine Only.bind (.ask (hcall _ trivial trivial)) ?_
      rintro (_ | status)
      · refine Only.bind (.ask (hcall _ trivial trivial)) fun _ => ?_
        exact .ask (hcall _ trivial trivial)
      · exact .ask (hcall _ trivial trivial)
    · exact .pure _
  · exact .pure _

/-- The output and the record are replaced, and the live files removed. -/
theorem only_completeSession (hctx : Hosting self session ctx) (st : LoopState)
    (exit : ProcessExit) : Only (Hosts self session) (ctx.completeSession st exit) := by
  unfold RunnerContext.completeSession
  rw [hctx.paths, hctx.own]
  refine Only.bind (.attempt ?_) ?_
  · refine Only.bind (only_writeOutput (hosts_of_replaces (by simp))) fun _ => ?_
    refine Only.bind (.ask (.perform trivial)) fun finishedAt => ?_
    exact only_writeMetadata (hosts_of_replaces (by simp))
  · rintro (error | _)
    · refine Only.bind (.lift (calls_closeConnection (fun _ => trivial) _)) fun _ => ?_
      exact Only.bind (only_drop (fun _ h _ => h) hctx.paths) fun _ => .throw _
    · dsimp only
      refine Only.bind ?_ fun _ => ?_
      · have hremove : ∀ name, Owned session name →
            Only (Hosts self session) (ignore (ask (file (.removeFile .removeLiveFiles name)))) :=
          fun name hname => .ignore (.ask (.perform (.inl hname)))
        unfold Registry.removeLiveFiles
        refine Only.bind (hremove _ (by simp [Owned])) fun _ => ?_
        exact hremove _ (by simp [Owned])
      · refine Only.bind (only_drop (fun _ h _ => h) hctx.paths) fun _ => ?_
        split
        · exact .pure _
        · have hsends : ∀ {connection : Connection}, Only (Hosts self session)
              (ctx.sendExit connection exit) := by
            refine Calls.of_within (within_sendExit fun op hop => ?_)
            unfold Sends at hop
            split at hop
            · exact trivial
            · exact trivial
            · exact trivial
            · exact hop.elim
          exact Only.bind hsends fun _ => .lift (.perform trivial)

/-- A runner that gives up drops its files. -/
theorem only_abandon (hctx : Hosting self session ctx) (error : IoError) :
    Only (Hosts self session) (ctx.abandon error) := by
  unfold RunnerContext.abandon
  refine Only.bind (.lift (.perform trivial)) fun _ => ?_
  exact Only.bind (only_drop (fun _ h _ => h) hctx.paths) fun _ => .throw _

theorem calls_exitEvent (hctx : Hosting self session ctx) (h : Named "runner" st.trace)
    (event : String) (hevent : event ∈ traceEvents) (exit : ProcessExit) :
    Calls (Hosts self session) (traceProcessExit ctx.self st.trace event exit) :=
  .of_within (within_exit hctx.traces h hevent exit)

/-- The loop, and what follows it. -/
theorem only_runEventLoop (hctx : Hosting self session ctx) (h : Named "runner" st.trace) :
    Only (Hosts self session) (ctx.runEventLoop st) := by
  have hrun : Yields (Hosts self session) (fun _ => True) (ctx.runEventLoop st) := by
    unfold RunnerContext.runEventLoop
    refine Yields.attempt_bind (hosts_eventLoop hctx _ h) ?_ fun error =>
      .of_only (only_abandon hctx error) fun _ => trivial
    rintro (st | ⟨st, exit⟩ | st) hst
    · exact .pure trivial
    · refine Yields.attempt_bind (hctx.step (steps_drainPty _ _ hst)) (fun st hst => ?_)
        fun error => .of_only (only_abandon hctx error) fun _ => trivial
      refine .of_only ?_ fun _ => trivial
      refine Only.bind (.lift (calls_exitEvent hctx hst _ (by decide) _)) fun trace => ?_
      refine Only.bind (only_completeSession hctx _ _) fun _ => ?_
      refine Only.bind (.lift (calls_closeConnection (fun _ => trivial) _)) fun _ => ?_
      exact .lift (.perform trivial)
    · refine .of_only ?_ fun _ => trivial
      refine Only.bind (.lift (.perform trivial)) fun _ => ?_
      refine Only.bind (.attempt (only_stopChild fun _ h _ => h)) ?_
      rintro (error | status)
      · refine Only.bind (.lift (calls_closeConnection (fun _ => trivial) _)) fun _ => ?_
        exact Only.bind (only_drop (fun _ h _ => h) hctx.paths) fun _ => .throw _
      · refine Only.bind (.lift (calls_exitEvent hctx hst _ (by decide) _)) fun trace => ?_
        refine Only.bind (only_completeSession hctx _ _) fun _ => ?_
        exact .lift (calls_closeConnection (fun _ => trivial) _)
  exact hrun.only

theorem only_serve {trace : Option Trace} (hctx : Hosting self session ctx)
    (h : Named "runner" trace) : Only (Hosts self session) (ctx.serve trace) := by
  unfold RunnerContext.serve
  refine Only.bind (.attempt (.ask (.perform trivial))) ?_
  rintro (error | _)
  · exact only_abandon hctx error
  · exact only_runEventLoop hctx h

/-- The trace that is created is the component's. -/
theorem yields_createTrace {ops : Call → Prop}
    (hops : ∀ op, Hosts self session op → Streamless op → ops op) {name : Name}
    (hname : name = (sessionPaths session).trace) :
    Yields ops (fun t => t.component = "runner") (Trace.create self name "runner") := by
  unfold Trace.create
  refine Yields.bind (P := fun _ => True)
    (.of_only (.ask (.perform (hops _ (.inr (.inl hname)) trivial))) fun _ => trivial)
    fun fd _ => ?_
  exact Yields.lift (within_write (streamless_traces hops) rfl (by decide) .none)

/-- The child is started on the terminal. -/
theorem yields_spawnChild {ops : Call → Prop}
    (hops : ∀ op, Hosts self session op → Streamless op → ops op) {config : StartupConfig}
    {trace : Option Trace} (h : Named "runner" trace) :
    Yields ops (fun r => Named "runner" r.1) (spawnChild self config trace) := by
  have hcommand : Calls ops (startCommand self config) := by
    unfold startCommand defaultShell
    split
    · split
      · apply Calls.bind _ fun _ => .ret _
        exact Calls.bind (.perform (hops _ trivial trivial)) fun _ => .ret _
      · exact Calls.bind (.ret _) fun _ => .ret _
    · exact .ret _
  have hcall : ∀ call : ProcessCall, Hosts self session (.process call) →
      Streamless (.process call) → Calls ops (process call) := fun _ h h' => .perform (hops _ h h')
  unfold spawnChild
  refine Yields.lift_bind (P := fun _ => True) hcommand fun command _ => ?_
  refine Yields.bind (P := fun _ => True)
    (.of_only (.ask (hcall _ trivial trivial)) fun _ => trivial) fun _ _ => ?_
  refine Yields.bind (P := fun _ => True)
    (.of_only (.ask (hcall _ trivial trivial)) fun _ => trivial) fun _ _ => ?_
  refine Yields.bind (P := fun _ => True)
    (.of_only (.ask (hcall _ trivial trivial)) fun _ => trivial) fun _ _ => ?_
  refine Yields.lift_bind (within_event (streamless_traces hops) h (by decide)) fun trace h => ?_
  refine Yields.bind (P := fun _ => True)
    (.of_only (.ask (hcall _ trivial trivial)) fun _ => trivial) fun startedAt _ => ?_
  exact Yields.lift_bind (P := fun _ => True) (hcall _ trivial trivial) fun childPid _ => .pure h

/-- The start until the launcher is told. -/
theorem yields_prepareRunner {ops : Call → Prop}
    (hops : ∀ op, Hosts self session op → Streamless op → ops op) {R : Registry}
    {files : SessionFiles} {config : StartupConfig} (hpaths : files.paths = sessionPaths session) :
    Yields ops (fun r => Hosting self session r.1 ∧ Named "runner" r.2)
      (prepareRunner self R session files config) := by
  have hcall : ∀ call : ProcessCall, Hosts self session (.process call) →
      Streamless (.process call) → Calls ops (process call) := fun _ h h' => .perform (hops _ h h')
  unfold prepareRunner
  refine Yields.bind (P := Named "runner") ?_ fun trace h => ?_
  · split
    · rw [map_eq_pure_bind]
      exact Yields.bind (yields_createTrace hops (by rw [hpaths])) fun trace h =>
        .pure (named_some.mpr h)
    · exact .pure (named_none _)
  refine Yields.lift_bind (within_event (streamless_traces hops) h (by decide)) fun trace h => ?_
  refine Yields.bind (P := fun _ => True) (.of_only ?_ fun _ => trivial) fun _ _ => ?_
  · unfold createPty
    apply Only.bind
    · unfold validateDimensions
      split
      · exact .pure _
      · exact .throw _
    · intro _
      exact .ask (hcall _ trivial trivial)
  refine Yields.attempt_bind (yields_spawnChild hops h) ?_ fun error =>
    .lift_bind (P := fun _ => True) (hcall _ trivial trivial) fun _ _ => .throw _
  rintro ⟨trace, startedAt, childPid⟩ h
  have hctx : Hosting self session
      { self, registry := R, session, files, childPid, startedAt } := ⟨rfl, hpaths⟩
  refine Yields.attempt_bind (P := fun _ => True) (.of_only ?_ fun _ => trivial) ?_ ?_
  · refine Only.bind (hctx.only_writeLive hops false) fun _ => ?_
    exact .ask (hcall _ trivial trivial)
  · intro _ _
    exact .pure ⟨hctx, h⟩
  · intro error
    -- the terminal is dropped, and the child killed and reaped
    refine Yields.lift_bind (P := fun _ => True) (hcall _ trivial trivial) fun _ _ => ?_
    refine Yields.bind (P := fun _ => True)
      (.of_only (.ignore (.ask (hcall _ trivial trivial))) fun _ => trivial) fun _ _ => ?_
    exact Yields.bind (P := fun _ => True)
      (.of_only (.ignore (.ask (hcall _ trivial trivial))) fun _ => trivial) fun _ _ => .throw _

/-- The runner, from taking its session to the end. -/
theorem only_hosting {R : Registry} {config : StartupConfig} :
    Only (Hosts self session) (do
      let files ← R.bindSession session
      match ← attempt (prepareRunner self R session files config) with
      | .error error =>
        files.drop
        throw error
      | .ok (ctx, trace) => ctx.serve trace) := by
  refine Yields.only (?_ : Yields (Hosts self session) (fun _ => True) _)
  refine Yields.bind (yields_bindSession hosts_of_takes) fun files hfiles => ?_
  refine Yields.attempt_bind (yields_prepareRunner (fun _ h _ => h) hfiles) ?_ ?_
  · rintro ⟨ctx, trace⟩ ⟨hctx, h⟩
    exact .of_only (only_serve hctx h) fun _ => trivial
  · intro error
    refine .of_only ?_ fun _ => trivial
    exact Only.bind (only_drop (fun _ h _ => h) hfiles) fun _ => .throw _

end hosting

/-! ## The clients -/

section joining

variable {self : Self} {session : SessionId}

theorem joins_of_looks (op : Call) (h : Looks op) : Joins self session op := by
  unfold Looks at h
  split at h
  · exact trivial
  · exact trivial
  · exact h.elim

theorem joins_of_connects (op : Call) (h : Connects session op) : Joins self session op := by
  unfold Connects at h
  split at h
  · exact trivial
  · exact h
  · exact trivial
  · exact trivial
  · exact h.elim

theorem joins_of_traces (op : Call) (h : Traces self "attachment" op) : Joins self session op := by
  unfold Traces at h
  split at h
  · exact h
  · exact h
  · exact h.elim

theorem joins_of_attends {stream : Fd} (op : Call) (h : Attends self stream op) :
    Joins self session op := by
  rcases h with h | h
  · unfold Relaying at h
    split at h <;> first | exact trivial | exact h.elim
  · exact joins_of_traces op h

variable {trace : Option Trace}

theorem joins_event (h : Named "attachment" trace) {event : String}
    (hevent : event ∈ traceEvents) :
    (traceEvent self trace event).Within (fun _ _ => True) (Joins self session)
      (Named "attachment") := within_event joins_of_traces h hevent

theorem calls_joinsError (h : Named "attachment" trace) {event : String}
    (hevent : event ∈ traceEvents) (error : IoError) :
    (traceIoError self trace event error).Within (fun _ _ => True) (Joins self session)
      (Named "attachment") := within_error joins_of_traces h hevent error

/-- What an attachment does on its stream, and all its other calls that leave streams alone. -/
theorem only_attachRaw {ops : Call → Prop} {stream : Fd} {dimensions : UInt16 × UInt16}
    (hops : ∀ op, Joins self session op → Streamless op → ops op)
    (hattends : ∀ op, Attends self stream op → ops op) (h : Named "attachment" trace) :
    Only ops (attachRaw self stream dimensions trace) := by
  refine Yields.only (?_ : Yields ops (fun _ => True) _)
  unfold attachRaw
  refine Yields.lift_bind (within_event (fun op hop => hattends op (.inr hop)) h (by decide))
    fun trace h => ?_
  refine Yields.attempt_bind (P := fun _ => True)
    (.of_only (.ask (.perform (hops _ trivial trivial))) fun _ => trivial) ?_ ?_
  · intro _ _
    refine Yields.bind (P := fun _ => True) (.of_only (.ask (.ret _)) fun _ => trivial)
      fun socketOutput _ => ?_
    have hstart : Named "attachment" (AttachState.mk socketOutput .empty false trace).trace := h
    exact .of_only ((only_attachLoop _ hstart).mono hattends) fun _ => trivial
  · intro error
    exact Yields.lift_bind
      (within_error (fun op hop => hattends op (.inr hop)) h (by decide) error) fun _ _ => .throw _

/-- The size of the terminal is asked for. -/
theorem calls_windowSizeOrDefault {ops : Call → Prop} (hops : ops (.terminal .windowSize)) :
    Calls ops windowSizeOrDefault := by
  unfold windowSizeOrDefault
  exact Calls.bind (only_windowSize hops) fun _ => .ret _

/-- An attachment, until it drops its stream. -/
theorem only_relaying {ops : Call → Prop} {stream : Fd}
    (hops : ∀ op, Joins self session op → Streamless op → ops op)
    (hattends : ∀ op, Attends self stream op → ops op) (h : Named "attachment" trace) :
    Only ops (do
      ask (socket (.setNonblocking stream true))
      let dimensions ← windowSizeOrDefault
      match ← attempt (ask (terminal .enterRaw)) with
      | .error error =>
        let _ ← traceIoError self trace "raw_terminal_entry_failed" error
        throw error
      | .ok () =>
        let result ← attempt (attachRaw self stream dimensions trace)
        terminal .leaveRaw
        ask (.ret result)) := by
  refine Only.bind (.ask (.perform (hops _ trivial trivial))) fun _ => ?_
  refine Only.bind (.lift (calls_windowSizeOrDefault (hops _ trivial trivial))) fun dimensions => ?_
  refine Only.bind (.attempt (.ask (.perform (hops _ trivial trivial)))) ?_
  rintro (error | _)
  · refine Only.bind (.lift ?_) fun _ => .throw _
    exact .of_within (within_error (fun op hop => hattends op (.inr hop)) h (by decide) error)
  · refine Only.bind (.attempt (only_attachRaw hops hattends h)) fun result => ?_
    exact Only.bind (.lift (.perform (hops _ trivial trivial))) fun _ => .ask (.ret _)

/-- An attachment to a running session. -/
theorem only_attachLive {stream : Fd} (h : Named "attachment" trace) :
    Only (Joins self session) (attachLive self stream trace) := by
  unfold attachLive
  refine Only.bind (.attempt (only_relaying (fun _ hop _ => hop) joins_of_attends h))
    fun result => ?_
  exact Only.bind (.lift (.perform trivial)) fun _ => .ask (.ret _)

/-- A trace that is there is appended to. -/
theorem yields_attachmentTrace {ops : Call → Prop}
    (hops : ∀ op, Joins self session op → Streamless op → ops op)
    {R : Registry} {enabled : Bool} :
    Yields ops (Named "attachment") (attachmentTrace self R session enabled) := by
  have hopen : Yields ops (fun t => t.component = "attachment")
      (Trace.openTrace self (sessionPaths session).trace "attachment") := by
    unfold Trace.openTrace
    refine Yields.bind (P := fun _ => True)
      (.of_only (.ask (.perform (hops _ trivial trivial))) fun _ => trivial) fun metadata _ => ?_
    split
    · exact .throw _
    · refine Yields.bind (P := fun _ => True)
        (.of_only (.ask (.perform (hops _ rfl trivial))) fun _ => trivial) fun fd _ => ?_
      exact Yields.lift (within_write
        (fun op h => hops op (joins_of_traces op h) (streamless_of_traces h)) rfl (by decide) .none)
  unfold attachmentTrace
  split
  · refine Yields.bind yields_paths ?_
    rintro paths rfl
    refine Yields.attempt_bind hopen (fun trace h => .pure (named_some.mpr h)) fun error => ?_
    dsimp only
    split
    · exact .pure (named_none _)
    · exact .throw _
  · exact .pure (named_none _)

/-- A finished session is only shown. -/
theorem only_replayCompleted {ops : Call → Prop}
    (hops : ∀ op, Joins self session op → Streamless op → ops op)
    {R : Registry} {exit : ExitMetadata} {truncated : Bool} :
    Only ops (replayCompleted R session exit truncated) := by
  have hwrite : ∀ bytes, Only ops (ask (terminal (.writeOutput bytes))) :=
    fun _ => .ask (.perform (hops _ trivial trivial))
  unfold replayCompleted
  refine Only.bind ?_ fun _ => ?_
  · split
    · exact hwrite _
    · exact .pure _
  refine Only.bind (only_readOutput fun op h =>
    hops op (joins_of_looks op h) (streamless_of_looks h)) fun output => ?_
  refine Only.bind ?_ fun _ => ?_
  · unfold showOutput
    split
    · exact hwrite _
    · exact .pure _
  refine Only.bind ?_ fun _ => .pure _
  unfold writeCompletion
  exact Only.bind (hwrite _) fun _ => .ask (.perform (hops _ trivial trivial))

/-- An attachment, once the registry is open. -/
theorem only_attaching {R : Registry} {traceEnabled : Bool} :
    Only (Joins self session) (do
      let trace ← attachmentTrace self R session traceEnabled
      let trace ← traceEvent self trace "attachment_process_started"
      match ← attempt (R.connect session) with
      | .ok stream =>
        let trace ← traceEvent self trace "runner_socket_connected"
        attachLive self stream trace
      | .error connectError =>
        let trace ← traceIoError self trace "runner_socket_connect_failed" connectError
        match ← R.readMetadata session with
        | some (.completed _ _ _ exit _ truncated) =>
          let processExit ← replayCompleted R session exit truncated
          let _ ← traceProcessExit self trace "completed_session_replayed" processExit
          return processExit
        | _ => throw connectError) := by
  refine Yields.only (?_ : Yields (Joins self session) (fun _ => True) _)
  refine Yields.bind (yields_attachmentTrace fun _ h _ => h) fun trace h => ?_
  refine Yields.lift_bind (joins_event h (by decide)) fun trace h => ?_
  refine Yields.attempt_bind (P := fun _ => True)
    (.of_only (only_connect joins_of_connects) fun _ => trivial) ?_ ?_
  · intro stream _
    refine Yields.lift_bind (joins_event h (by decide)) fun trace h => ?_
    exact .of_only (only_attachLive h) fun _ => trivial
  · intro error
    refine Yields.lift_bind (calls_joinsError h (by decide) error) fun trace h => ?_
    refine Yields.bind (P := fun _ => True) (.of_only (only_readMetadata joins_of_looks)
      fun _ => trivial) fun metadata _ => ?_
    split
    · refine Yields.bind (P := fun _ => True)
        (.of_only (only_replayCompleted fun _ h _ => h) fun _ => trivial)
        fun exit _ => ?_
      exact Yields.lift_bind (within_exit joins_of_traces h (by decide) exit) fun _ _ =>
        .pure trivial
    · exact .throw _

/-- A launcher starts a runner, and waits for its answer. -/
theorem only_launchRunner {ops : Call → Prop}
    (hops : ∀ op, Joins self session op → Streamless op → ops op)
    {config : StartupConfig} : Only ops (launchRunner session config) := by
  unfold launchRunner
  refine Only.bind (.ask (.perform (hops _ rfl trivial))) fun _ => ?_
  refine Only.bind (.ask (.perform (hops _ trivial trivial))) fun _ => ?_
  refine Only.bind (.ask (.ret _)) fun _ => ?_
  have hwait : Only ops (liftM (process .waitRunner)) :=
    .lift (.perform (hops _ trivial trivial))
  refine Only.bind (.attempt (.ask (.perform (hops _ trivial trivial)))) ?_
  rintro (error | response)
  · exact Only.bind hwait fun _ => .throw _
  · dsimp only
    split
    · exact .pure _
    · split
      · exact Only.bind hwait fun _ => .throw _
      · exact Only.bind hwait fun _ => .throw _

theorem only_writeAllStream {ops : Call → Prop} {stream : Fd}
    (hwrite : ∀ bytes, ops (.socket (.write stream bytes))) (rounds : Nat) (bytes : Bytes) :
    Only ops (writeAllStream stream rounds bytes) := by
  induction rounds generalizing bytes with
  | zero => exact trivial
  | succ rounds ih =>
    rw [writeAllStream]
    split
    · exact .pure _
    · refine Only.bind (.attempt (.ask (.perform (hwrite _)))) fun r => ?_
      split
      · exact .throw _
      · exact ih _
      · split
        · exact ih _
        · exact .throw _

/-- After `Stop` the client waits until the runner closes. -/
theorem only_awaitClose {ops : Call → Prop} {stream : Fd}
    (hread : ∀ capacity, ops (.socket (.read stream capacity))) (rounds : Nat) :
    Only ops (awaitClose stream rounds) := by
  induction rounds with
  | zero => exact trivial
  | succ rounds ih =>
    rw [awaitClose]
    refine Only.bind (.attempt (.ask (.perform (hread _)))) fun r => ?_
    split
    · exact .pure _
    · exact ih
    · split
      · exact .pure _
      · split
        · exact ih
        · exact .throw _

/-- What a client that stops a session does on its stream, until it drops it. -/
theorem only_asking {ops : Call → Prop} {stream : Fd} {rounds : Nat}
    (hwrite : ∀ bytes, ops (.socket (.write stream bytes)))
    (hread : ∀ capacity, ops (.socket (.read stream capacity)))
    (htimeout : ops (.socket (.setReadTimeout stream))) :
    Only ops (do
      let encoded ← ask (.ret (encodeRecord .stop))
      writeAllStream stream rounds encoded
      ask (socket (.setReadTimeout stream))
      awaitClose stream rounds) := by
  refine Only.bind (.ask (.ret _)) fun encoded => ?_
  refine Only.bind (only_writeAllStream hwrite _ _) fun _ => ?_
  refine Only.bind (.ask (.perform htimeout)) fun _ => ?_
  exact only_awaitClose hread _

/-- A client that stops a session, once the registry is open. -/
theorem only_stopping {R : Registry} :
    Only (Joins self session) (do
      let stream ← R.connect session
      let result ← attempt (do
        let encoded ← ask (.ret (encodeRecord .stop))
        writeAllStream stream self.rounds encoded
        ask (socket (.setReadTimeout stream))
        awaitClose stream self.rounds)
      socket (.close stream)
      ask (.ret result)) := by
  refine Only.bind (only_connect joins_of_connects) fun stream => ?_
  refine Only.bind (.attempt (only_asking (fun _ => trivial) (fun _ => trivial) trivial))
    fun result => ?_
  exact Only.bind (.lift (.perform trivial)) fun _ => .ask (.ret _)

end joining

end Surface

end AfkCli
