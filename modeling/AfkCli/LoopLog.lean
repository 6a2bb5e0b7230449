import AfkCli.Interaction.Log
import AfkCli.Kernel
import AfkCli.OutputTail

/-!
# What a runner's log shows

The runner's calls and their answers are all that its terminal and its clients see of it. The views
of a log are what was read from the terminal, what was sent to a connection, and what a connection
is to be shown.

## Main definitions

* `RunnerLog`, `RunnerEvent`: logs of the program's calls
* `ptyRead`, `ptyWritten`, `sent`, `received`, `accepted`: what went over each channel
* `contributed`, `typed`: what was taken as input
* `replay`, `expected`: the output an attachment is to be shown
* `connections`: what the system may answer
-/

namespace AfkCli

open Interaction

abbrev RunnerEvent := Event Call Call.Answer

abbrev RunnerLog := Log Call Call.Answer

/-! ## Events -/

/-- The bytes the event read from the terminal. -/
def outputOf : RunnerEvent → Bytes
  | ⟨.process (.readPty _), .ok bytes⟩ => bytes
  | _ => []

/-- The bytes the event sent to the connection. -/
def sentBy (fd : Fd) : RunnerEvent → Bytes
  | ⟨.socket (.write stream bytes), .ok n⟩ => if stream = fd then bytes.take n else []
  | _ => []

/-- The bytes the event received from the connection. -/
def receivedBy (fd : Fd) : RunnerEvent → Bytes
  | ⟨.socket (.read stream _), .ok bytes⟩ => if stream = fd then bytes else []
  | _ => []

/-- The connection the event accepted. -/
def acceptedBy : RunnerEvent → List Fd
  | ⟨.socket (.accept _), .ok stream⟩ => [stream]
  | _ => []

/-- The bytes of the connection that the event took as input. -/
def contributedBy (fd : Fd) : RunnerEvent → Bytes
  | ⟨.note (.inputAccepted stream bytes), _⟩ => if stream = fd then bytes else []
  | _ => []

/-- The bytes that the event took as input. -/
def typedBy : RunnerEvent → Bytes
  | ⟨.note (.inputAccepted _ bytes), _⟩ => bytes
  | _ => []

/-- The bytes the event wrote to the terminal. -/
def writtenBy : RunnerEvent → Bytes
  | ⟨.process (.writePty bytes), .ok n⟩ => bytes.take n
  | _ => []

/-- The connection becomes the active attachment. -/
def Activates (fd : Fd) (e : RunnerEvent) : Prop := e.op = .note (.activated fd)

instance (fd : Fd) : DecidablePred (Activates fd) :=
  fun e => inferInstanceAs (Decidable (e.op = .note (.activated fd)))

/-! ## Logs -/

/-- Everything read from the terminal. -/
def ptyRead : RunnerLog → Bytes
  | [] => []
  | e :: log => ptyRead log ++ outputOf e

/-- Everything sent to the connection. -/
def sent (fd : Fd) : RunnerLog → Bytes
  | [] => []
  | e :: log => sent fd log ++ sentBy fd e

/-- Everything received from the connection. -/
def received (fd : Fd) : RunnerLog → Bytes
  | [] => []
  | e :: log => received fd log ++ receivedBy fd e

/-- The connections that were accepted. -/
def accepted : RunnerLog → List Fd
  | [] => []
  | e :: log => acceptedBy e ++ accepted log

/-- Everything the connection contributed to the terminal's input. -/
def contributed (fd : Fd) : RunnerLog → Bytes
  | [] => []
  | e :: log => contributed fd log ++ contributedBy fd e

/-- Everything that was taken as input, in order. -/
def typed : RunnerLog → Bytes
  | [] => []
  | e :: log => typed log ++ typedBy e

/-- Everything written to the terminal. -/
def ptyWritten : RunnerLog → Bytes
  | [] => []
  | e :: log => ptyWritten log ++ writtenBy e

/-- The marker of a truncated history, and its end. -/
def replay (history : Bytes) : Bytes :=
  (if outputTailBytes < history.length then truncationMarker else []) ++
    history.rtake outputTailBytes

/-- What the connection is to be shown since its activation: the replay of the history before it,
and everything read after it. -/
def expected (fd : Fd) : RunnerLog → Option Bytes
  | [] => none
  | e :: log =>
    if Activates fd e then some (replay (ptyRead log))
    else (expected fd log).map (· ++ outputOf e)

/-- The connection was active before another one was activated. -/
def Superseded (fd : Fd) : RunnerLog → Prop
  | [] => False
  | e :: log =>
    Superseded fd log ∨ ((∃ other, other ≠ fd ∧ Activates other e) ∧ ∃ e' ∈ log, Activates fd e')

/-! ## Answers -/

/-- What the system answers to the runner: a connection that it accepts is a new one. -/
def connections : Answers Call Call.Answer :=
  fun log op r => ∀ stream ∈ acceptedBy ⟨op, r⟩, stream ∉ accepted log

instance (log : RunnerLog) (op : Call) (r : op.Answer) : Decidable (connections log op r) :=
  inferInstanceAs (Decidable (∀ stream ∈ acceptedBy ⟨op, r⟩, stream ∉ accepted log))

theorem nodup_acceptedBy (e : RunnerEvent) : (acceptedBy e).Nodup := by
  unfold acceptedBy
  split
  · exact List.nodup_singleton _
  · exact List.nodup_nil

theorem nodup_of_allowed {log : RunnerLog} (h : Allowed connections log) : (accepted log).Nodup := by
  induction log with
  | nil => exact List.nodup_nil
  | cons e log ih =>
    refine List.nodup_append.mpr ⟨nodup_acceptedBy e, ih h.2, ?_⟩
    rintro stream hnew _ hold rfl
    exact h.1 stream hnew hold

/-! ## Failures -/

/-- A call on one connection, or a call of a record's rewrite, that failed with an error which the
event loop passes on. -/
def Breaking : RunnerEvent → Prop
  | ⟨.socket (.accept _), .error error⟩ => error.kind ≠ .wouldBlock
  | ⟨.socket (.peerUid _), .error _⟩ => True
  | ⟨.socket (.setNonblocking ..), .error _⟩ => True
  | ⟨.file (.createNew ..), .error _⟩ => True
  | ⟨.file (.writeAll site ..), .error _⟩ => site = .atomicWrite
  | ⟨.file (.syncAll _), .error _⟩ => True
  | ⟨.file (.rename ..), .error _⟩ => True
  | _ => False

/-- The poll, the child's wait or the terminal itself failed. -/
def SystemFailure : RunnerEvent → Prop
  | ⟨.process (.readPty _), .error error⟩ =>
    error.kind ≠ .wouldBlock ∧ error.rawOsError ≠ some 5 ∧ error.kind ≠ .interrupted
  | ⟨.process .tryWait, .error _⟩ => True
  | ⟨.process (.setWindowSize ..), .error _⟩ => True
  | ⟨.process (.poll _), .error error⟩ => error.kind ≠ .interrupted
  | _ => False

instance : DecidablePred Breaking := fun e => by
  unfold Breaking
  split <;> infer_instance

instance : DecidablePred SystemFailure := fun e => by
  unfold SystemFailure
  split <;> infer_instance

/-- Nothing failed that ends the event loop. -/
def Unbroken (log : RunnerLog) : Prop := ∀ e ∈ log, ¬ Breaking e ∧ ¬ SystemFailure e

instance : DecidablePred Unbroken :=
  fun log => inferInstanceAs (Decidable (∀ e ∈ log, ¬ Breaking e ∧ ¬ SystemFailure e))

/-- The clock failed when the session was completed, or the child could not be signalled or waited
for. -/
def Hindering : RunnerEvent → Prop
  | ⟨.process (.now .completeSession), .error _⟩ => True
  | ⟨.process (.killChild _), .error _⟩ => True
  | ⟨.process .waitChild, .error _⟩ => True
  | _ => False

instance : DecidablePred Hindering := fun e => by
  unfold Hindering
  split <;> infer_instance

/-- A call failed that the event loop or the completion of the session needs. -/
def Spoils (e : RunnerEvent) : Prop := Breaking e ∨ SystemFailure e ∨ Hindering e

/-- No call failed that the event loop or the completion of the session needs. -/
def Smooth (log : RunnerLog) : Prop := ∀ e ∈ log, ¬ Spoils e

instance : DecidablePred Smooth := fun log =>
  inferInstanceAs (Decidable (∀ e ∈ log, ¬ (Breaking e ∨ SystemFailure e ∨ Hindering e)))

theorem Smooth.unbroken {log : RunnerLog} (h : Smooth log) : Unbroken log :=
  fun e he => ⟨fun hb => h e he (.inl hb), fun hs => h e he (.inr (.inl hs))⟩

theorem Smooth.suffix {log log' : RunnerLog} (h : Smooth log') (hlog : log <:+ log') : Smooth log :=
  fun e he => h e (hlog.subset he)

/-! ## Scenes -/

/-- An outside for playing the program: for each kind of call, what the next ones are answered.
Where nothing is left, nothing happens and nothing fails. -/
structure Scene where
  accepts : List (Except IoError Fd) := []
  peers : List (Except IoError Nat) := []
  polls : List PollReply := []
  reads : List (Except IoError Bytes) := []
  writes : List (Except IoError Nat) := []
  ptyReads : List (Except IoError Bytes) := []
  waits : List (Option ExitStatus) := []
  ptys : List (Except IoError Unit) := []

/-- The next answer of a kind, and what is left. -/
def nextAnswer {α : Type} (default : α) : List α → α × List α
  | [] => (default, [])
  | a :: rest => (a, rest)

/-- How a scene answers. -/
def Scene.answer (s : Scene) : (op : Call) → op.Answer × Scene
  | .socket (.accept _) =>
    let next := nextAnswer (.error (.os .wouldBlock 11)) s.accepts
    (next.1, { s with accepts := next.2 })
  | .socket (.read ..) =>
    let next := nextAnswer (.error (.os .wouldBlock 11)) s.reads
    (next.1, { s with reads := next.2 })
  | .socket (.write _ bytes) =>
    let next := nextAnswer (.ok bytes.length) s.writes
    (next.1, { s with writes := next.2 })
  | .process (.readPty _) =>
    let next := nextAnswer (.error (.os .wouldBlock 11)) s.ptyReads
    (next.1, { s with ptyReads := next.2 })
  | .process .tryWait =>
    let next := nextAnswer none s.waits
    (.ok next.1, { s with waits := next.2 })
  | .process (.poll _) =>
    let next := nextAnswer ⟨.empty, .empty, .empty, .empty⟩ s.polls
    (.ok next.1, { s with polls := next.2 })
  | .socket (.peerUid _) =>
    let next := nextAnswer (.ok 0) s.peers
    (next.1, { s with peers := next.2 })
  | .process (.openpty ..) =>
    let next := nextAnswer (.ok ()) s.ptys
    (next.1, { s with ptys := next.2 })
  | .process (.writePty bytes) => (.ok bytes.length, s)
  | .file (.createNew ..) | .file (.openAppend _) => (.ok 0, s)
  | op => (Kernel.quietAnswer op, s)

namespace Scene

def readable : PollFlags := { PollFlags.empty with readable := true }

def writable : PollFlags := { PollFlags.empty with writable := true }

/-- The poll reports a connection, the candidate, the attachment, or room in the terminal. -/
def atListener : PollReply := ⟨.empty, readable, .empty, .empty⟩
def atCandidate : PollReply := ⟨.empty, .empty, readable, .empty⟩
def atActive : PollReply := ⟨.empty, .empty, .empty, readable⟩
def atPty : PollReply := ⟨writable, .empty, .empty, .empty⟩

end Scene

end AfkCli
