import AfkCli.Queueing

/-!
# The event loop as a state machine

A hub relays between a terminal and its clients: one active attachment, which sees the terminal's
output and types its input, and one candidate, whose first records decide what becomes of it. The
hub reacts to events one at a time. It has no turns, no polling, no trace and no files: those the
event loop adds without changing what the hub does.

## Main definitions

* `Hub`, `Phase`: what the hub holds, and what it is in the middle of
* `Hub.On`: how the hub takes an event
* `Hub.Silent`: what it does between events
* `Serves`: the logs of a hub, and where they lead

## Main results

* `Serves.steady`: every connection of a hub has room for its replay and its next read
-/

namespace AfkCli

open Interaction

/-! ## Reading and writing -/

/-- What a read of a connection comes to. -/
inductive Received
  | blocked
  | failed
  | records (connection : Connection) (records : List Record)

/-- A read of the connection. -/
def Connection.receive (connection : Connection) : Except IoError Bytes → Received
  | .ok [] => .failed
  | .ok (byte :: bytes) =>
    match connection.decoder.push (byte :: bytes) with
    | .error _ => .failed
    | .ok decoder =>
      match decoder.drain with
      | .error _ => .failed
      | .ok (records, decoder) => .records { connection with decoder } records
  | .error error =>
    if error.kind = .wouldBlock ∨ error.kind = .interrupted then .blocked else .failed

/-- A write of the whole queue; `none` when it failed. -/
def ByteQueue.afterWrite (queue : ByteQueue) : Except IoError Nat → Option ByteQueue
  | .ok 0 => none
  | .ok (n + 1) => some (queue.written (n + 1))
  | .error error =>
    if error.kind = .wouldBlock ∨ error.kind = .interrupted then some queue else none

theorem afterWrite_limit {queue queue' : ByteQueue} {r : Except IoError Nat}
    (h : queue.afterWrite r = some queue') : queue'.limit = queue.limit := by
  rcases r with error | (_ | n)
  · simp only [ByteQueue.afterWrite] at h
    split at h
    · rw [Option.some.inj h]
    · cases h
  · cases h
  · rw [← Option.some.inj h, ByteQueue.limit_written]

/-! ## The hub -/

/-- What the hub is in the middle of. -/
inductive Phase
  | idle
  /-- a connection was accepted and is not a candidate yet -/
  | accepted (stream : Fd)
  /-- the first records of the candidate -/
  | greeting (connection : Connection) (records : List Record)
  /-- records of a connection that is joining, or of the active attachment -/
  | applying (joining : Bool) (connection : Connection) (records : List Record)
  | stopping (stream : Fd)
  /-- the child has exited -/
  | exited (status : ExitStatus)
  /-- a client has stopped the session -/
  | stopped (stream : Fd)
  /-- the last attachment has been told the exit -/
  | finished

/-- The session is over. -/
def Phase.Ended : Phase → Prop
  | exited _ | stopped _ | finished => True
  | _ => False

/-- No connection's records are being taken. -/
def Phase.Calm : Phase → Prop
  | greeting .. | applying .. | stopping _ => False
  | _ => True

theorem Phase.Ended.calm {phase : Phase} (h : phase.Ended) : phase.Calm := by
  cases phase <;> trivial

/-- A hub; `leaving` is a connection that it has given up and not closed yet. -/
structure Hub where
  tail : OutputTail
  ptyInput : ByteQueue
  active : Option Connection
  candidate : Option Connection
  phase : Phase
  leaving : Option Fd

namespace Hub

def start : Hub where
  tail := .new outputTailBytes
  ptyInput := .new maxAttachmentQueueBytes
  active := none
  candidate := none
  phase := .idle
  leaving := none

/-- Nothing is left to do before the next event. -/
structure Calm (h : Hub) : Prop where
  leaving : h.leaving = none
  phase : h.phase.Calm

/-- Output of the terminal. An attachment that cannot take it is dropped. -/
def extend (h : Hub) (bytes : Bytes) : Hub :=
  let h := { h with tail := h.tail.extend bytes }
  match h.active with
  | none => h
  | some connection =>
    match enqueueOutput connection bytes with
    | .ok connection => { h with active := some connection }
    | .error _ => { h with active := none, leaving := some connection.stream }

/-- A read of the active attachment. -/
def readActive (h : Hub) (connection : Connection) (r : Except IoError Bytes) : Hub :=
  match connection.receive r with
  | .blocked => h
  | .failed => { h with active := none, leaving := some connection.stream }
  | .records connection records =>
    { h with active := none, phase := .applying false connection records }

/-- A read of the candidate. -/
def readCandidate (h : Hub) (connection : Connection) (r : Except IoError Bytes) : Hub :=
  match connection.receive r with
  | .blocked => h
  | .failed => { h with candidate := none, leaving := some connection.stream }
  | .records connection [] => { h with candidate := some connection }
  | .records connection (record :: records) =>
    { h with candidate := none, phase := .greeting connection (record :: records) }

/-- A write to the active attachment. -/
def writeActive (h : Hub) (connection : Connection) (r : Except IoError Nat) : Hub :=
  match connection.output.afterWrite r with
  | some output => { h with active := some { connection with output } }
  | none => { h with active := none, leaving := some connection.stream }

/-- A write to the terminal. When it fails the active attachment is dropped. -/
def writePty (h : Hub) (r : Except IoError Nat) : Hub :=
  match h.ptyInput.afterWrite r with
  | some ptyInput => { h with ptyInput }
  | none => { h with active := none, leaving := h.active.map (·.stream) }

@[simp] theorem phase_extend (h : Hub) (bytes : Bytes) : (h.extend bytes).phase = h.phase := by
  unfold extend
  dsimp only
  split
  · rfl
  · split <;> rfl

@[simp] theorem phase_writePty (h : Hub) (r : Except IoError Nat) :
    (h.writePty r).phase = h.phase := by
  unfold writePty
  split <;> rfl

@[simp] theorem phase_writeActive (h : Hub) (c : Connection) (r : Except IoError Nat) :
    (h.writeActive c r).phase = h.phase := by
  unfold writeActive
  split <;> rfl

/-- A read leaves the phase as it is, or yields records. -/
theorem phase_readActive (h : Hub) (c : Connection) (r : Except IoError Bytes) :
    (h.readActive c r).phase = h.phase ∨
      ∃ c' records, (h.readActive c r).phase = .applying false c' records := by
  unfold readActive
  split
  · exact .inl rfl
  · exact .inl rfl
  · exact .inr ⟨_, _, rfl⟩

theorem phase_readCandidate (h : Hub) (c : Connection) (r : Except IoError Bytes) :
    (h.readCandidate c r).phase = h.phase ∨
      ∃ c' records, (h.readCandidate c r).phase = .greeting c' records := by
  unfold readCandidate
  split
  · exact .inl rfl
  · exact .inl rfl
  · exact .inl rfl
  · exact .inr ⟨_, _, rfl⟩

end Hub

/-- A record that an attachment must not send, or that does not fit. -/
def Refused (queue : ByteQueue) : Record → Prop
  | .input bytes => (queue.push bytes).2 = false
  | .resize .. => False
  | _ => True

/-- Calls that mean nothing to the hub. -/
def Quiet : Call → Prop
  | .file _ => True
  | .process (.readPty _) | .process (.writePty _) | .process (.setWindowSize ..) => False
  | .process .tryWait => False
  | .process _ => True
  | .socket (.peerUid _) | .socket (.setNonblocking ..) | .socket (.setWriteTimeout _) => True
  | .socket (.closeListener _) => True
  | .socket _ | .terminal _ | .note _ => False

/-- The calls of a trace. -/
def Traces : Call → Prop
  | .process (.now site) => site = .traceWrite
  | .file (.writeAll site ..) => site = .traceWrite
  | _ => False

namespace Hub

/-- How the hub takes an event. -/
inductive On : Hub → RunnerEvent → Hub → Prop
  | quiet {h : Hub} {op : Call} {r : op.Answer} (hop : Quiet op) (hcalm : h.Calm) : On h ⟨op, r⟩ h
  | trace {h : Hub} {op : Call} {r : op.Answer} (hop : Traces op) : On h ⟨op, r⟩ h
  | readPty {h : Hub} {capacity : Nat} {bytes : Bytes} (hsteady : h.leaving = none)
      (hphase : h.phase = .idle ∨ ∃ status, h.phase = .exited status) (hne : bytes ≠ []) :
      On h ⟨.process (.readPty capacity), .ok bytes⟩ (h.extend bytes)
  | ptyEof {h : Hub} {capacity : Nat} (hcalm : h.Calm) :
      On h ⟨.process (.readPty capacity), .ok []⟩ h
  | ptyError {h : Hub} {capacity : Nat} {error : IoError} (hcalm : h.Calm) :
      On h ⟨.process (.readPty capacity), .error error⟩ h
  | writePty {h : Hub} {r : Except IoError Nat} (hsteady : h.leaving = none)
      (hphase : h.phase = .idle) :
      On h ⟨.process (.writePty h.ptyInput.bytes), r⟩ (h.writePty r)
  | writeActive {h : Hub} {c : Connection} {r : Except IoError Nat} (hsteady : h.leaving = none)
      (hphase : h.phase = .idle ∨ h.phase.Ended) (hactive : h.active = some c) :
      On h ⟨.socket (.write c.stream c.output.bytes), r⟩ (h.writeActive c r)
  | readActive {h : Hub} {c : Connection} {capacity : Nat} {r : Except IoError Bytes}
      (hsteady : h.leaving = none) (hphase : h.phase = .idle) (hactive : h.active = some c) :
      On h ⟨.socket (.read c.stream capacity), r⟩ (h.readActive c r)
  | readCandidate {h : Hub} {c : Connection} {capacity : Nat} {r : Except IoError Bytes}
      (hsteady : h.leaving = none) (hphase : h.phase = .idle) (hcandidate : h.candidate = some c) :
      On h ⟨.socket (.read c.stream capacity), r⟩ (h.readCandidate c r)
  | accept {h : Hub} {listener stream : Fd} (hsteady : h.leaving = none)
      (hphase : h.phase = .idle) :
      On h ⟨.socket (.accept listener), .ok stream⟩ { h with phase := .accepted stream }
  | acceptError {h : Hub} {listener : Fd} {error : IoError} (hcalm : h.Calm) :
      On h ⟨.socket (.accept listener), .error error⟩ h
  | attach {h : Hub} {c c' : Connection} {rows columns : UInt16} {rest : List Record}
      (hsteady : h.leaving = none) (hphase : h.phase = .greeting c (.attach rows columns :: rest))
      (hreplay : enqueueReplay c h.tail = .ok c') :
      On h ⟨.process (.setWindowSize rows columns), .ok ()⟩
        { h with phase := .applying true c' rest }
  | resize {h : Hub} {joining : Bool} {c : Connection} {rows columns : UInt16} {rest : List Record}
      (hsteady : h.leaving = none)
      (hphase : h.phase = .applying joining c (.resize rows columns :: rest)) :
      On h ⟨.process (.setWindowSize rows columns), .ok ()⟩
        { h with phase := .applying joining c rest }
  /-- the terminal fails, and what was about to be applied is lost -/
  | windowError {h : Hub} {rows columns : UInt16} {error : IoError} (hsteady : h.leaving = none)
      (hphase : ¬ h.phase.Calm) :
      On h ⟨.process (.setWindowSize rows columns), .error error⟩ { h with phase := .idle }
  | input {h : Hub} {joining : Bool} {c : Connection} {bytes : Bytes} {rest : List Record}
      (hsteady : h.leaving = none)
      (hphase : h.phase = .applying joining c (.input bytes :: rest))
      (hfits : (h.ptyInput.push bytes).2 = true) :
      On h ⟨.note (.inputAccepted c.stream bytes), ()⟩
        { h with ptyInput := (h.ptyInput.push bytes).1, phase := .applying joining c rest }
  | activate {h : Hub} {c : Connection} (hsteady : h.leaving = none)
      (hphase : h.phase = .applying true c []) :
      On h ⟨.note (.activated c.stream), ()⟩
        { h with active := some c, phase := .idle, leaving := h.active.map (·.stream) }
  | stop {h : Hub} {stream : Fd} (hsteady : h.leaving = none) (hphase : h.phase = .stopping stream) :
      On h ⟨.note (.stopRequested stream), ()⟩ { h with phase := .stopped stream }
  | exit {h : Hub} {status : ExitStatus} (hsteady : h.leaving = none) (hphase : h.phase = .idle) :
      On h ⟨.process .tryWait, .ok (some status)⟩ { h with phase := .exited status }
  | wait {h : Hub} {r : Except IoError (Option ExitStatus)} (hcalm : h.Calm)
      (hphase : h.phase.Ended ∨ ∀ status, r ≠ .ok (some status)) :
      On h ⟨.process .tryWait, r⟩ h
  | close {h : Hub} {stream : Fd} (hsteady : h.leaving = none) (hphase : h.phase.Ended) :
      On h ⟨.socket (.close stream), ()⟩ h
  | closeLeaving {h : Hub} {stream : Fd} (hleaving : h.leaving = some stream) :
      On h ⟨.socket (.close stream), ()⟩ { h with leaving := none }

/-- What the hub does between events. -/
inductive Silent : Hub → Hub → Prop
  /-- an accepted connection replaces the candidate -/
  | seat {h : Hub} {stream : Fd} (hphase : h.phase = .accepted stream) :
      Silent h
        { h with
          candidate := some (.new stream)
          phase := .idle
          leaving := h.candidate.map (·.stream) }
  | turnAway {h : Hub} {stream : Fd} (hphase : h.phase = .accepted stream) :
      Silent h { h with phase := .idle, leaving := some stream }
  /-- the first records are neither an `Attach` nor a single `Stop` -/
  | dismiss {h : Hub} {c : Connection} {records : List Record}
      (hphase : h.phase = .greeting c records)
      (hattach : ∀ rows columns, records.head? ≠ some (.attach rows columns))
      (hstop : records ≠ [.stop]) : Silent h { h with phase := .idle, leaving := some c.stream }
  | stop {h : Hub} {c : Connection} (hphase : h.phase = .greeting c [.stop]) :
      Silent h { h with phase := .stopping c.stream, leaving := some c.stream }
  /-- a record is refused, and its connection with it -/
  | refuse {h : Hub} {joining : Bool} {c : Connection} {record : Record} {rest : List Record}
      (hphase : h.phase = .applying joining c (record :: rest))
      (hrefused : Refused h.ptyInput record) :
      Silent h { h with phase := .idle, leaving := some c.stream }
  | applied {h : Hub} {c : Connection} (hphase : h.phase = .applying false c []) :
      Silent h { h with active := some c, phase := .idle }
  /-- the exit is queued for the last attachment -/
  | finish {h : Hub} {c : Connection} {exit : ProcessExit} {encoded : Bytes}
      (hphase : h.phase.Ended) (hunfinished : h.phase ≠ .finished) (hactive : h.active = some c)
      (hencoded : encodeRecord (.exit exit) = .ok encoded)
      (hfits : (c.output.push encoded).2 = true) :
      Silent h
        { h with active := some { c with output := (c.output.push encoded).1 }, phase := .finished }

end Hub

/-- The hub serves along the log, and is then in this state. -/
inductive Serves : RunnerLog → Hub → Prop
  | start : Serves [] .start
  | event {log : RunnerLog} {h h' : Hub} {e : RunnerEvent} (hserves : Serves log h)
      (hon : h.On e h') : Serves (e :: log) h'
  | silent {log : RunnerLog} {h h' : Hub} (hserves : Serves log h) (hsteady : h.leaving = none)
      (hsilent : h.Silent h') : Serves log h'

/-! ## Steady connections -/

/-- What a read that yields records tells. -/
theorem receive_records {c c' : Connection} {r : Except IoError Bytes} {records : List Record}
    (h : c.receive r = .records c' records) :
    c'.stream = c.stream ∧ c'.output = c.output ∧ ∃ bytes, bytes ≠ [] ∧ r = .ok bytes ∧
      ipcFormat.drain (c.decoder.buffer ++ bytes) = (records, .ok c'.decoder.buffer) := by
  rcases r with error | (_ | ⟨byte, bytes⟩)
  · simp only [Connection.receive] at h
    split at h <;> cases h
  · cases h
  · simp only [Connection.receive] at h
    cases hpush : c.decoder.push (byte :: bytes) with
    | error error => simp [hpush] at h
    | ok pushed =>
      rw [hpush] at h
      cases hdrain : pushed.drain with
      | error error => simp [hdrain] at h
      | ok result =>
        obtain ⟨records', decoder⟩ := result
        simp only [hdrain, Received.records.injEq] at h
        obtain ⟨rfl, rfl⟩ := h
        refine ⟨rfl, rfl, byte :: bytes, List.cons_ne_nil _ _, rfl, ?_⟩
        rw [← Decoder.push_ok hpush]
        exact Decoder.drain_ok.mp hdrain

/-- The connection has room for its next read, and the queue of a new one. -/
structure Connection.Steady (c : Connection) : Prop where
  drained : ipcFormat.cut c.decoder.buffer = .more
  limit : c.output.limit = maxAttachmentQueueBytes

theorem Connection.steady_new (stream : Fd) : (Connection.new stream).Steady := ⟨rfl, rfl⟩

theorem SameConnection.steady {c c' : Connection} (h : SameConnection c c') (hc : c.Steady) :
    c'.Steady := by
  constructor
  · rw [h.decoder]
    exact hc.drained
  · rw [h.limit]
    exact hc.limit

theorem Connection.Steady.receive {c c' : Connection} {r : Except IoError Bytes}
    {records : List Record} (hc : c.Steady) (h : c.receive r = .records c' records) :
    c'.Steady ∧ c'.output = c.output ∧ ∀ record ∈ records, record.Valid := by
  obtain ⟨-, houtput, bytes, -, -, hdrain⟩ := receive_records h
  have hrest : (ipcFormat.drain (c.decoder.buffer ++ bytes)).2 = .ok c'.decoder.buffer := by
    rw [hdrain]
  refine ⟨⟨(Format.drain_rest hrest).1, ?_⟩, houtput, ?_⟩
  · rw [houtput]
    exact hc.limit
  · intro record hrecord
    have hmem : record ∈ (ipcFormat.drain (c.decoder.buffer ++ bytes)).1 := by rwa [hdrain]
    exact valid_of_drain record hmem

def Phase.Steady : Phase → Prop
  | greeting c records => c.Steady ∧ c.output.bytes = [] ∧ ∀ record ∈ records, record.Valid
  | applying _ c records => c.Steady ∧ ∀ record ∈ records, record.Valid
  | _ => True

/-- The connections are steady, and the candidate's queue is empty. -/
structure Hub.Steady (h : Hub) : Prop where
  tail : h.tail.capacity = outputTailBytes
  active : ∀ c, h.active = some c → c.Steady
  candidate : ∀ c, h.candidate = some c → c.Steady ∧ c.output.bytes = []
  phase : h.phase.Steady

namespace Hub.Steady

variable {h h' : Hub} {c : Connection}

theorem readActive (hh : h.Steady) (hactive : h.active = some c) (r : Except IoError Bytes) :
    (h.readActive c r).Steady := by
  unfold Hub.readActive
  cases hr : c.receive r with
  | blocked => exact hh
  | failed => exact ⟨hh.tail, nofun, hh.candidate, hh.phase⟩
  | records c' records =>
    obtain ⟨hc', -, hvalid⟩ := (hh.active c hactive).receive hr
    exact ⟨hh.tail, nofun, hh.candidate, ⟨hc', hvalid⟩⟩

theorem readCandidate (hh : h.Steady) (hcandidate : h.candidate = some c)
    (r : Except IoError Bytes) : (h.readCandidate c r).Steady := by
  obtain ⟨hc, hempty⟩ := hh.candidate c hcandidate
  unfold Hub.readCandidate
  cases hr : c.receive r with
  | blocked => exact hh
  | failed => exact ⟨hh.tail, hh.active, nofun, hh.phase⟩
  | records c' records =>
    obtain ⟨hc', houtput, hvalid⟩ := hc.receive hr
    cases records with
    | nil =>
      refine ⟨hh.tail, hh.active, ?_, hh.phase⟩
      rintro _ ⟨⟩
      exact ⟨hc', houtput ▸ hempty⟩
    | cons record records =>
      exact ⟨hh.tail, hh.active, nofun, ⟨hc', houtput ▸ hempty, hvalid⟩⟩

theorem writeActive (hh : h.Steady) (hactive : h.active = some c) (r : Except IoError Nat) :
    (h.writeActive c r).Steady := by
  have hc := hh.active c hactive
  unfold Hub.writeActive
  cases hr : c.output.afterWrite r with
  | none => exact ⟨hh.tail, nofun, hh.candidate, hh.phase⟩
  | some output =>
    refine ⟨hh.tail, ?_, hh.candidate, hh.phase⟩
    rintro _ ⟨⟩
    refine ⟨hc.drained, ?_⟩
    rw [← hc.limit]
    exact afterWrite_limit hr

theorem extend (hh : h.Steady) (bytes : Bytes) : (h.extend bytes).Steady := by
  have htail : (h.tail.extend bytes).capacity = outputTailBytes := by
    rw [OutputTail.capacity_extend]
    exact hh.tail
  unfold Hub.extend
  dsimp only
  split
  · exact ⟨htail, hh.active, hh.candidate, hh.phase⟩
  · rename_i c hactive
    cases hqueue : enqueueOutput c bytes with
    | error error => exact ⟨htail, nofun, hh.candidate, hh.phase⟩
    | ok queued =>
      refine ⟨htail, ?_, hh.candidate, hh.phase⟩
      rintro _ ⟨⟩
      exact (enqueueOutput_ok hqueue).1.steady (hh.active c hactive)

theorem on {e : RunnerEvent} (hh : h.Steady) (hon : h.On e h') : h'.Steady := by
  obtain ⟨htail, hactive, hcandidate, hphase⟩ := hh
  cases hon with
  | quiet | trace | ptyEof | ptyError | acceptError | wait | close | closeLeaving =>
    exact ⟨htail, hactive, hcandidate, hphase⟩
  | readPty => exact extend ⟨htail, hactive, hcandidate, hphase⟩ _
  | @writePty r =>
    unfold Hub.writePty
    cases h.ptyInput.afterWrite r with
    | some queue => exact ⟨htail, hactive, hcandidate, hphase⟩
    | none => exact ⟨htail, nofun, hcandidate, hphase⟩
  | writeActive _ _ ha => exact writeActive ⟨htail, hactive, hcandidate, hphase⟩ ha _
  | readActive _ _ ha => exact readActive ⟨htail, hactive, hcandidate, hphase⟩ ha _
  | readCandidate _ _ hc => exact readCandidate ⟨htail, hactive, hcandidate, hphase⟩ hc _
  | accept | stop | exit => exact ⟨htail, hactive, hcandidate, trivial⟩
  | windowError => exact ⟨htail, hactive, hcandidate, trivial⟩
  | @attach c c' _ _ _ _ hp hreplay =>
    rw [hp] at hphase
    obtain ⟨hc, hempty, hvalid⟩ := hphase
    refine ⟨htail, hactive, hcandidate, ?_, fun r hr => hvalid r (List.mem_cons_of_mem _ hr)⟩
    exact (enqueueReplay_same hreplay).steady hc
  | resize _ hp | input _ hp =>
    rw [hp] at hphase
    obtain ⟨hc, hvalid⟩ := hphase
    exact ⟨htail, hactive, hcandidate, hc, fun r hr => hvalid r (List.mem_cons_of_mem _ hr)⟩
  | activate _ hp =>
    rw [hp] at hphase
    refine ⟨htail, ?_, hcandidate, trivial⟩
    rintro _ ⟨⟩
    exact hphase.1

theorem silent (hh : h.Steady) (hsilent : h.Silent h') : h'.Steady := by
  obtain ⟨htail, hactive, hcandidate, hphase⟩ := hh
  cases hsilent with
  | @seat stream =>
    refine ⟨htail, hactive, ?_, trivial⟩
    rintro _ ⟨⟩
    exact ⟨Connection.steady_new stream, rfl⟩
  | turnAway | dismiss | stop | refuse => exact ⟨htail, hactive, hcandidate, trivial⟩
  | applied hp =>
    rw [hp] at hphase
    refine ⟨htail, ?_, hcandidate, trivial⟩
    rintro _ ⟨⟩
    exact hphase.1
  | @finish c _ _ _ _ ha =>
    refine ⟨htail, ?_, hcandidate, trivial⟩
    rintro _ ⟨⟩
    have hc := hactive c ha
    refine ⟨hc.drained, ?_⟩
    rw [← hc.limit]
    exact ByteQueue.push_limit _ _

end Hub.Steady

/-- **The connections of a hub are steady**: the replay of the tail fits the queue of a candidate,
and every connection has room for its next read. -/
theorem Serves.steady {log : RunnerLog} {h : Hub} (hserves : Serves log h) : h.Steady := by
  induction hserves with
  | start => exact ⟨rfl, nofun, nofun, trivial⟩
  | event _ hon ih => exact ih.on hon
  | silent _ _ hsilent ih => exact ih.silent hsilent

end AfkCli
