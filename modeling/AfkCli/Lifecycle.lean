import AfkCli.Hoare
import AfkCli.Json
import AfkCli.LoopLog
import AfkCli.Surface

/-!
# The life of a session

A runner takes a session, opens a terminal, starts a child, records the session and only then tells
its launcher that it is ready. It ends when the child is gone: the result is recorded, the live files
are removed, and the last attachment is told. A monitor states this order, and every run of a runner
follows it, whatever its calls are answered.

## Main definitions

* `Lifecycle`, `Lifecycle.next`: how far a session is, and what may happen then
* `Lifecycle.Settled`: how a runner ends

## Main results

* `runner_lifecycle`: every run of a runner keeps the order
-/

namespace AfkCli

open Interaction

/-! ## The monitor -/

/-- What a runner knows of its child, and has asked of it. -/
inductive Child
  | unborn
  | running
  /-- it was sent `SIGTERM` -/
  | asked
  /-- and the grace period is over -/
  | overdue
  | killed
  | gone (status : ExitStatus)
  deriving DecidableEq

inductive Terminal
  | unopened | opened | closed
  deriving DecidableEq

/-- How far a session is; `pending` is what was last written to a temporary file. -/
structure Lifecycle where
  locked : Bool
  terminal : Terminal
  child : Child
  pending : Bytes
  recorded : Bool
  ready : Bool
  stop : Bool
  completed : Bool
  /-- the clock failed when the child was started -/
  undated : Bool
  deriving DecidableEq

namespace Lifecycle

def start : Lifecycle where
  locked := false
  terminal := .unopened
  child := .unborn
  pending := []
  recorded := false
  ready := false
  stop := false
  completed := false
  undated := false

/-- The status the child was reaped with. -/
def reaped (s : Lifecycle) : Option ExitStatus :=
  match s.child with
  | .gone status => some status
  | _ => none

/-- Allow what is allowed. -/
def allow (c : Prop) [Decidable c] (s : Lifecycle) : Option Lifecycle := if c then some s else none

/-- A record may replace the session's record: a live one while the child runs, and a completed one
when it is gone, with the exit it was reaped with. -/
def record (session : SessionId) (s : Lifecycle) : Option SessionMetadata → Option Lifecycle
  | some (.live id ..) =>
    allow (id = session.toText ∧ s.child = .running) { s with recorded := true }
  | some (.completed id _ _ exit ..) =>
    allow (id = session.toText ∧ s.reaped.map (fun status => .ofProcessExit (processExit status)) =
      some exit) { s with completed := true }
  | none => none

/-- Where a runner may give up its socket or its lock: before it opens its terminal, while what others
left is cleared; when the record of the exit is in place; and when it drops its files, with its
terminal closed or its child reaped. -/
def mayRemove (s : Lifecycle) : Site → Bool
  | .removeStaleLive | .removeCompleted | .bindSession => s.terminal = .unopened
  | .removeLiveFiles => s.completed
  | .dropSessionFiles => s.terminal ≠ .opened ∨ s.reaped.isSome
  | _ => false

/-- The name is one by which the session is reached. -/
def isLive (session : SessionId) (name : Name) : Bool :=
  decide (name = (sessionPaths session).socket) || decide (name = (sessionPaths session).lock)

def onFile (serde : Serde) (session : SessionId) (s : Lifecycle) :
    (call : FileCall) → call.Answer → Option Lifecycle
  | .createNew name _, .ok _ =>
    some { s with locked := s.locked || name = (sessionPaths session).lock }
  | .writeAll .atomicWrite _ bytes, .ok () => some { s with pending := bytes }
  | .rename _ target, .ok () =>
    if target = (sessionPaths session).metadata then s.record session (serde.fromSlice s.pending)
    else some s
  | .removeFile site name, _ => if isLive session name then allow (s.mayRemove site) s else some s
  | _, _ => some s

/-- Nothing is taken from a connection before the session is ready or after the child is gone or the
terminal closed, and nothing is sent between the child's exit and its record. -/
def onSocket (s : Lifecycle) : SocketCall → Option Lifecycle
  | .accept _ | .read .. => allow (s.ready ∧ s.child = .running ∧ s.terminal = .opened) s
  | .write .. => allow (s.ready ∧ (s.reaped.isSome → s.completed)) s
  | _ => some s

def onProcess (s : Lifecycle) : (call : ProcessCall) → call.Answer → Option Lifecycle
  | .openpty .., .ok _ => allow (s.locked ∧ s.terminal = .unopened) { s with terminal := .opened }
  | .spawnChild _, .ok _ =>
    allow (s.locked ∧ s.terminal = .opened ∧ s.child = .unborn) { s with child := .running }
  | .sendResponse response, r =>
    if response = startupReady then
      allow (s.recorded ∧ s.child = .running) { s with ready := s.ready || r.isOk }
    else allow (s.terminal ≠ .opened ∨ s.reaped.isSome) s
  | .tryWait, .ok (some status) => allow (s.child ≠ .unborn) { s with child := .gone status }
  | .tryWait, _ => allow (s.child ≠ .unborn) s
  | .waitChild, .ok status => allow (s.child ≠ .unborn) { s with child := .gone status }
  | .waitChild, _ => allow (s.child ≠ .unborn) s
  | .killChild .term, _ =>
    allow (s.ready ∧ s.stop ∧ s.child = .running) { s with child := .asked }
  | .killChild .kill, _ =>
    allow (s.child = .overdue ∨ s.child = .running ∧ ¬ s.ready) { s with child := .killed }
  | .deadlinePassed, true => some (if s.child = .asked then { s with child := .overdue } else s)
  | .readPty _, _ | .writePty _, _ | .setWindowSize .., _ => allow (s.terminal = .opened) s
  | .setPtyNonblocking, _ | .poll _, _ => allow (s.terminal = .opened) s
  | .closePty, _ => allow (s.terminal = .opened) { s with terminal := .closed }
  | .now .startRunner, .error _ => some { s with undated := true }
  | _, _ => some s

/-- What may happen to a session, and where it leads. -/
def next (serde : Serde) (session : SessionId) (s : Lifecycle) :
    (op : Call) → op.Answer → Option Lifecycle
  | .file call, r => s.onFile serde session call r
  | .socket call, _ => s.onSocket call
  | .process call, r => s.onProcess call r
  | .note (.stopRequested _), _ => some { s with stop := true }
  | _, _ => some s

end Lifecycle

namespace Lifecycle

/-- How a runner ends: the terminal of a child that was not reaped is closed; a runner that ran to
its end has reaped its child and recorded it; and a child outlives a start of which the launcher was
not told only when the clock failed. -/
structure Settled (s : Lifecycle) (r : Except IoError Unit) : Prop where
  terminal : s.terminal ≠ .opened ∨ s.reaped.isSome = true
  completed : r = .ok () → s.completed = true ∧ s.reaped.isSome = true
  child : s.ready = false → s.child = .unborn ∨ s.child = .killed ∨ s.reaped.isSome = true ∨
    s.undated = true

/-! ## Where a session is -/

/-- Before the terminal is opened. -/
structure Fresh (s : Lifecycle) : Prop where
  terminal : s.terminal = .unopened
  child : s.child = .unborn
  ready : s.ready = false
  recorded : s.recorded = false
  completed : s.completed = false
  stop : s.stop = false

/-- While the event loop runs; what is pending is a live record. -/
structure Serving (ctx : RunnerContext) (s : Lifecycle) : Prop where
  locked : s.locked = true
  terminal : s.terminal = .opened
  child : s.child = .running
  ready : s.ready = true
  recorded : s.recorded = true
  stop : s.stop = false
  completed : s.completed = false
  pending : ∃ attached, s.pending = ctx.registry.serde.toVec (ctx.liveMetadata attached)

section run

variable {serde : Serde} {session : SessionId} {self : Self} {s : Lifecycle}

open Surface

/-- Calls that may happen at any time, and change nothing. -/
def Idle : Call → Prop
  | .file (.createNew ..) | .file (.rename ..) => False
  | .file (.writeAll site ..) => site ≠ .atomicWrite
  | .file (.removeFile ..) => False
  | .file _ => True
  | .socket (.accept _) | .socket (.read ..) | .socket (.write ..) => False
  | .socket _ => True
  | .process (.now site) => site ≠ .startRunner
  | .process .setsid | .process (.umask _) | .process (.executableFile _) => True
  | .process .recvStartup | .process .dupSlave | .process .childPid | .process .sleep => True
  | .note (.stopRequested _) => False
  | .note _ => True
  | _ => False

section loop

variable {ctx : RunnerContext}

/-- A step of the loop ends with the session still served, and the runner's trace its own. -/
def Stepped (ctx : RunnerContext) (r : Except IoError LoopState) (s : Lifecycle) : Prop :=
  (∀ st, r = .ok st → Named "runner" st.trace) ∧ Serving ctx s

/-- The session was stopped by a client. -/
def Stopping (ctx : RunnerContext) (s : Lifecycle) : Prop :=
  ∃ s₀, Serving ctx s₀ ∧ s = { s₀ with stop := true }

/-- The child of the session has exited. -/
def Exited (ctx : RunnerContext) (status : ExitStatus) (s : Lifecycle) : Prop :=
  ∃ s₀, Serving ctx s₀ ∧ s = { s₀ with child := .gone status }

/-- How a turn, or the loop, ends. -/
def Turned (ctx : RunnerContext) : Except IoError Turn → Lifecycle → Prop
  | .ok (.again st), s => Named "runner" st.trace ∧ Serving ctx s
  | .ok (.exited st exit), s =>
    Named "runner" st.trace ∧ ∃ status, exit = processExit status ∧ Exited ctx status s
  | .ok (.stopRequested st), s => Named "runner" st.trace ∧ Stopping ctx s
  | .error _, s => Serving ctx s

end loop

/-! ## The start -/

/-- A start that failed: the terminal is closed, and a child that is left runs because the clock
failed. -/
structure Failed (s : Lifecycle) : Prop where
  ready : s.ready = false
  terminal : s.terminal ≠ .opened
  child : s.child = .unborn ∨ s.child = .killed ∨ s.reaped.isSome = true ∨ s.undated = true

theorem Fresh.failed (hs : Fresh s) : Failed s where
  ready := hs.ready
  terminal := by rw [hs.terminal]; exact nofun
  child := .inl hs.child

end run

end Lifecycle

end AfkCli
