import AfkCli.OutputTail
import AfkCli.Platform
import AfkCli.Startup
import AfkCli.Trace

/-!
# The runner

The persistent process of a session: it takes the session ID, starts the child on a terminal, and
serves attachments from one event loop until the child exits or a client stops the session.

The functions of the source that change their arguments in place take and return them; a stream
that the source drops is closed by a call at the point of the drop.

## Main definitions

* `Connection`, `LoopState`: what the event loop holds
* `readRecords`, `applyActiveRecords`, `enqueueReplay`: moving bytes
* `drainPty`, `acceptCandidate`, `handleActive`, `handleCandidate`, `tick`: one turn of the loop
* `completeSession`, `runEventLoop`: the loop and the end of a session
* `startRunner`, `hiddenRunner`, `launchRunner`: the start of a session
-/

namespace AfkCli

open Interaction

def startupReady : UInt8 := 0
def startupExists : UInt8 := 1
def startupFailed : UInt8 := 2

/-! ## Connections -/

/-- A stream with its decoder and the bytes waiting to be sent. -/
structure Connection where
  stream : Fd
  decoder : Decoder
  output : ByteQueue

def Connection.new (stream : Fd) : Connection where
  stream := stream
  decoder := .empty
  output := .new maxAttachmentQueueBytes

/-- `<[u8]>::chunks`; the length bounds the number of chunks. -/
def chunks (size : Nat) : Nat → Bytes → List Bytes
  | 0, _ => []
  | _, [] => []
  | n + 1, bytes => bytes.take size :: chunks size n (bytes.drop size)

/-- Queue output records, one for each chunk of at most 64 KiB. -/
def enqueueChunks (connection : Connection) : List Bytes → Except IoError Connection
  | [] => .ok connection
  | chunk :: rest => do
    let encoded ← encodeRecord (.output chunk)
    match connection.output.push encoded with
    | (output, true) => enqueueChunks { connection with output } rest
    | (_, false) => .error (IoError.new .wouldBlock "attachment queue full")

def enqueueOutput (connection : Connection) (output : Bytes) : Except IoError Connection :=
  enqueueChunks connection (chunks maxIpcPayloadBytes output.length output)

/-- The marker of a truncated tail, and the tail. -/
def enqueueReplay (connection : Connection) (tail : OutputTail) : Except IoError Connection := do
  let connection ←
    (if tail.isTruncated then enqueueOutput connection truncationMarker else .ok connection)
  enqueueOutput connection tail.snapshot

/-- One read of a connection, and the records it completes. -/
def readRecords (connection : Connection) : Io (List Record × Connection) := do
  let capacity := min connection.decoder.remainingCapacity ioChunkBytes
  if capacity = 0 then throw invalidRecord
  else
    match ← attempt (ask (socket (.read connection.stream capacity))) with
    | .ok [] => throw (IoError.new .unexpectedEof "attachment closed")
    | .ok bytes =>
      match connection.decoder.push bytes with
      | .error _ => throw invalidRecord
      | .ok decoder =>
        match decoder.drain with
        | .error _ => throw invalidRecord
        | .ok (records, decoder) => return (records, { connection with decoder })
    | .error error =>
      if error.kind = .wouldBlock ∨ error.kind = .interrupted then return ([], connection)
      else throw error

/-- Apply the records of the connection `stream`: input goes to the queue, a resize to the
terminal. The answer is whether every record was accepted. -/
def applyActiveRecords (stream : Fd) (queue : ByteQueue) : List Record → Io (Bool × ByteQueue)
  | [] => return (true, queue)
  | .input bytes :: rest =>
    match queue.push bytes with
    | (queue, true) => do
      note (.inputAccepted stream bytes)
      applyActiveRecords stream queue rest
    | (queue, false) => return (false, queue)
  | .resize rows columns :: rest => do
    setWindowSize rows columns
    applyActiveRecords stream queue rest
  | _ :: _ => return (false, queue)

/-! ## The event loop -/

/-- The variables of `run_event_loop`. -/
structure LoopState where
  tail : OutputTail
  ptyInput : ByteQueue
  active : Option Connection
  candidate : Option Connection
  trace : Option Trace

/-- The variables at the start of the loop. -/
def LoopState.start (trace : Option Trace) : LoopState where
  tail := .new outputTailBytes
  ptyInput := .new maxAttachmentQueueBytes
  active := none
  candidate := none
  trace := trace

/-- What the loop's turns share. -/
structure RunnerContext where
  self : Self
  registry : Registry
  session : SessionId
  files : SessionFiles
  childPid : UInt32
  startedAt : UInt64

/-- How a turn of the loop ends. -/
inductive Turn
  | again (st : LoopState)
  | exited (st : LoopState) (exit : ProcessExit)
  | stopRequested (st : LoopState)

def processExit (status : ExitStatus) : ProcessExit :=
  match status.code.bind fun code => if 0 ≤ code ∧ code ≤ 255 then some code else none with
  | some code => .code (UInt8.ofNat code.toNat)
  | none =>
    match status.signal.bind fun signal => if 0 ≤ signal ∧ signal ≤ 255 then some signal else none with
    | some signal => .signal (UInt8.ofNat signal.toNat)
    | none => .code 1

/-- Drop a connection. -/
def closeConnection : Option Connection → Prog Unit
  | some connection => socket (.close connection.stream)
  | none => return ()

/-- Drop the active attachment. -/
def dropActive (st : LoopState) : Prog LoopState := do
  closeConnection st.active
  return { st with active := none }

def dropCandidate (st : LoopState) : Prog LoopState := do
  closeConnection st.candidate
  return { st with candidate := none }

namespace RunnerContext

variable (ctx : RunnerContext)

def event (st : LoopState) (event : String) : Prog LoopState := do
  let trace ← traceEvent ctx.self st.trace event
  return { st with trace }

def ioErrorEvent (st : LoopState) (event : String) (error : IoError) : Prog LoopState := do
  let trace ← traceIoError ctx.self st.trace event error
  return { st with trace }

def liveMetadata (attached : Bool) : SessionMetadata :=
  .live ctx.session.toText ctx.self.pid ctx.childPid ctx.startedAt attached

/-- Rewrite the live record, which only refreshes its attached flag. -/
def writeLive (attached : Bool) : Io Unit :=
  ctx.registry.writeMetadata ctx.self ctx.files.paths (ctx.liveMetadata attached)

/-- Read the terminal into the tail and the active attachment's queue. An attachment whose queue
is full is dropped. -/
def drainPty : Nat → Nat → LoopState → Io LoopState
  | 0, _, _ => ask .spin
  | rounds + 1, processed, st =>
    if maxPtyBytesPerTick ≤ processed then return st
    else do
      match ← attempt (ask (process (.readPty ioChunkBytes))) with
      | .ok [] => ctx.event st "pty_eof"
      | .ok bytes =>
        let st := { st with tail := st.tail.extend bytes }
        match st.active with
        | none => drainPty rounds (processed + bytes.length) st
        | some connection =>
          match enqueueOutput connection bytes with
          | .ok connection =>
            drainPty rounds (processed + bytes.length) { st with active := some connection }
          | .error _ =>
            let st ← dropActive st
            drainPty rounds (processed + bytes.length) st
      | .error error =>
        if error.kind = .wouldBlock then return st
        else if error.rawOsError = some 5 then ctx.ioErrorEvent st "pty_eio" error
        else if error.kind = .interrupted then drainPty rounds processed st
        else
          let _ ← ctx.ioErrorEvent st "pty_read_failed" error
          throw error

/-- Accept every waiting connection; each one replaces the candidate before it. -/
def acceptCandidate : Nat → LoopState → Io LoopState
  | 0, _ => ask .spin
  | rounds + 1, st => do
    match ← attempt (ask (socket (.accept ctx.files.listener))) with
    | .error error => if error.kind = .wouldBlock then return st else throw error
    | .ok stream =>
      match ← attempt (ask (socket (.peerUid stream))) with
      | .error error =>
        socket (.close stream)
        throw error
      | .ok uid =>
        if uid ≠ ctx.self.uid then
          let st ← ctx.event st "candidate_peer_rejected"
          socket (.close stream)
          acceptCandidate rounds st
        else
          match ← attempt (ask (socket (.setNonblocking stream true))) with
          | .error error =>
            socket (.close stream)
            throw error
          | .ok () =>
            let st ← (if st.candidate.isSome then ctx.event st "candidate_replaced" else pure st)
            let st ← ctx.event st "candidate_accepted"
            closeConnection st.candidate
            acceptCandidate rounds { st with candidate := some (Connection.new stream) }

/-- The records of the active attachment. -/
def readActive (connection : Connection) (st : LoopState) : Io LoopState := do
  match ← attempt (readRecords connection) with
  | .error error =>
    let st ← ctx.ioErrorEvent st "attachment_read_failed" error
    dropActive st
  | .ok (records, connection) =>
    let (accepted, ptyInput) ← applyActiveRecords connection.stream st.ptyInput records
    let st := { st with ptyInput, active := some connection }
    if accepted then return st
    else
      let st ← ctx.event st "attachment_input_rejected"
      dropActive st

/-- Write the terminal's input; a failure drops the active attachment. -/
def flushPtyInput (st : LoopState) : Prog LoopState := do
  let (ptyInput, result) ← flushQueue writePty ctx.self.rounds st.ptyInput
  let st := { st with ptyInput }
  match result with
  | .ok () => return st
  | .error error =>
    let st ← ctx.ioErrorEvent st "pty_input_write_failed" error
    dropActive st

/-- Send the active attachment what waits for it. -/
def flushActive (connection : Connection) (st : LoopState) : Prog LoopState := do
  let (output, result) ← flushQueue (writeStream connection.stream) ctx.self.rounds connection.output
  match result with
  | .ok () => return { st with active := some { connection with output } }
  | .error error =>
    let st ← ctx.ioErrorEvent st "attachment_write_failed" error
    dropActive st

/-- The active attachment is written to when it can be, and it is still there. -/
def writeIfReady (event : PollFlags) (st : LoopState) : Io LoopState :=
  match st.active with
  | some connection => if event.writable then ctx.flushActive connection st else pure st
  | none => pure st

/-- The active attachment is read when it can be, and it is still there. -/
def readIfReady (event : PollFlags) (st : LoopState) : Io LoopState :=
  match st.active with
  | some connection => if event.readyToRead then ctx.readActive connection st else pure st
  | none => pure st

/-- The polled active attachment: write first, then read. -/
def handleActive (event : PollFlags) (st : LoopState) : Io LoopState := do
  let st ← (if event.hangup then ctx.event st "attachment_poll_hangup" else pure st)
  let st ← (if event.error then ctx.event st "attachment_poll_error" else pure st)
  let st ← ctx.writeIfReady event st
  let st ← ctx.readIfReady event st
  (if st.active.isNone then ctx.writeLive false else pure ())
  return st

/-- A candidate's `Attach`: the window size, the replay, the records that came with it; then it
is the active attachment. -/
def activate (connection : Connection) (rows columns : UInt16) (remaining : List Record)
    (st : LoopState) : Io LoopState := do
  setWindowSize rows columns
  let connection ← ask (.ret (enqueueReplay connection st.tail))
  let (accepted, ptyInput) ← applyActiveRecords connection.stream st.ptyInput remaining
  let st := { st with ptyInput }
  if accepted then
    let st ← (if st.active.isSome then ctx.event st "attachment_replaced" else pure st)
    let st ← ctx.event st "attachment_activated"
    note (.activated connection.stream)
    closeConnection st.active
    ctx.writeLive true
    return { st with active := some connection }
  else
    socket (.close connection.stream)
    return st

/-- The candidate's first records are out of protocol. -/
def dismissCandidate (st : LoopState) : Io (Bool × LoopState) := do
  let st ← ctx.event st "candidate_rejected"
  let st ← dropCandidate st
  return (false, st)

/-- The polled candidate: its first record decides. The answer is whether to stop. -/
def handleCandidate (connection : Connection) (st : LoopState) : Io (Bool × LoopState) := do
  match ← attempt (readRecords connection) with
  | .error error =>
    let st ← ctx.ioErrorEvent st "candidate_read_failed" error
    let st ← dropCandidate st
    return (false, st)
  | .ok ([], connection) => return (false, { st with candidate := some connection })
  | .ok (.attach rows columns :: remaining, connection) =>
    let st ← ctx.activate connection rows columns remaining { st with candidate := none }
    return (false, st)
  | .ok ([.stop], connection) =>
    let st ← ctx.event st "stop_requested"
    let st ← dropCandidate st
    note (.stopRequested connection.stream)
    return (true, st)
  | .ok _ => ctx.dismissCandidate st

/-- What the loop polls in a state. -/
def pollRequest (st : LoopState) : PollRequest where
  ptyWritable := !st.ptyInput.isEmpty
  candidate := st.candidate.map (·.stream)
  active := st.active.map fun connection => (connection.stream, !connection.output.isEmpty)

/-- The events of a turn: the terminal, the active attachment, the listener, the candidate. The
events of the candidate are those of the stream that was polled, even when the slot was refilled
since. -/
def handleEvents (events : PollReply) (polled : PollRequest) (st : LoopState) :
    Io (Bool × LoopState) := do
  let st ← (if events.pty.writable then ctx.flushPtyInput st else pure st)
  let st ← (if polled.active.isSome then ctx.handleActive events.active st else pure st)
  let st ←
    (if events.listener.readable then ctx.acceptCandidate ctx.self.rounds st else pure st)
  if polled.candidate.isSome ∧ events.candidate.readyToRead then
    match st.candidate with
    | some connection => ctx.handleCandidate connection st
    | none => return (false, st)
  else return (false, st)

/-- The terminal's output has filled the active attachment's queue. -/
def outputQueueFull (st : LoopState) : Io LoopState := do
  let st ← ctx.event st "attachment_output_queue_full"
  ctx.writeLive false
  return st

/-- One turn of the event loop. -/
def tick (st : LoopState) : Io Turn := do
  let hadAttachment := st.active.isSome
  let st ← ctx.drainPty ctx.self.rounds 0 st
  let st ← (if hadAttachment ∧ st.active.isNone then ctx.outputQueueFull st else pure st)
  match ← ask (process .tryWait) with
  | some status =>
    let st ← ctx.event st "child_exited"
    return .exited st (processExit status)
  | none =>
    match ← attempt (ask (process (.poll (pollRequest st)))) with
    | .error error =>
      if error.kind = .interrupted then return .again st
      else
        let _ ← ctx.ioErrorEvent st "runner_poll_failed" error
        throw error
    | .ok events =>
      let (stop, st) ← ctx.handleEvents events (pollRequest st) st
      return if stop then .stopRequested st else .again st

/-- Turns, until the child exits or a client stops the session. -/
def eventLoop : Nat → LoopState → Io Turn
  | 0, _ => ask .spin
  | rounds + 1, st => do
    match ← ctx.tick st with
    | .again st => eventLoop rounds st
    | turn => return turn

/-! ## The end of a session -/

/-- Wait for the child in the grace period. -/
def awaitChild : Nat → Io (Option ExitStatus)
  | 0 => ask .spin
  | rounds + 1 => do
    let passed : Bool ← process .deadlinePassed
    if passed then return none
    else
      match ← ask (process .tryWait) with
      | some status => return some status
      | none =>
        process .sleep
        awaitChild rounds

def stopChild : Io ExitStatus := do
  match ← ask (process .tryWait) with
  | some status => return status
  | none =>
    ask (process (.killChild .term))
    match ← awaitChild ctx.self.rounds with
    | some status => return status
    | none =>
      match ← ask (process .tryWait) with
      | some _ => ask (process .waitChild)
      | none =>
        ask (process (.killChild .kill))
        ask (process .waitChild)

def completedMetadata (st : LoopState) (finishedAt : UInt64) (exit : ProcessExit) : SessionMetadata :=
  .completed ctx.session.toText ctx.startedAt finishedAt (.ofProcessExit exit)
    (UInt64.ofNat st.tail.snapshot.length) st.tail.isTruncated

/-- Send the last attachment what waits for it, and its `Exit` record. -/
def sendExit (connection : Connection) (exit : ProcessExit) : Io Unit := do
  ignore (ask (socket (.setNonblocking connection.stream false)))
  ignore (ask (socket (.setWriteTimeout connection.stream)))
  let (output, result) ← flushQueue (writeStream connection.stream) ctx.self.rounds connection.output
  match result with
  | .error _ => return ()
  | .ok () =>
    match encodeRecord (.exit exit) with
    | .error _ => return ()
    | .ok encoded =>
      match output.push encoded with
      | (_, false) => return ()
      | (output, true) =>
        let _ ← flushQueue (writeStream connection.stream) ctx.self.rounds output
        return ()

/-- Store the output and the record, give up the live files, and send the exit. -/
def completeSession (st : LoopState) (exit : ProcessExit) : Io Unit := do
  match ← attempt (do
      Registry.writeOutput ctx.self ctx.files.paths st.tail.snapshot
      let finishedAt ← nowSeconds .completeSession
      ctx.registry.writeMetadata ctx.self ctx.files.paths (ctx.completedMetadata st finishedAt exit)) with
  | .error error =>
    closeConnection st.active
    ctx.files.drop
    throw error
  | .ok () =>
    Registry.removeLiveFiles ctx.files.paths
    ctx.files.drop
    match st.active with
    | none => return ()
    | some connection =>
      ctx.sendExit connection exit
      socket (.close connection.stream)

/-- Leave the loop with an error: everything the runner holds is dropped. -/
def abandon (error : IoError) : Io Unit := do
  process .closePty
  ctx.files.drop
  throw error

/-- Run the loop, and complete the session. -/
def runEventLoop (st : LoopState) : Io Unit := do
  match ← attempt (ctx.eventLoop ctx.self.rounds st) with
  | .error error => ctx.abandon error
  | .ok (.again _) => return ()
  | .ok (.exited st exit) =>
    match ← attempt (ctx.drainPty ctx.self.rounds 0 st) with
    | .error error => ctx.abandon error
    | .ok st =>
      let trace ← traceProcessExit ctx.self st.trace "session_completed" exit
      ctx.completeSession { st with trace } exit
      closeConnection st.candidate
      process .closePty
  | .ok (.stopRequested st) =>
    process .closePty
    match ← attempt ctx.stopChild with
    | .error error =>
      closeConnection st.active
      ctx.files.drop
      throw error
    | .ok status =>
      let trace ← traceProcessExit ctx.self st.trace "session_completed" (processExit status)
      ctx.completeSession { st with trace } (processExit status)
      closeConnection st.candidate

end RunnerContext

/-! ## The start of a session -/

/-- `$SHELL` when it is an absolute executable file, otherwise `/bin/sh`. -/
def defaultShell (self : Self) : Prog Bytes :=
  match self.shell.filter fun path => path.head? = some 0x2f with
  | some shell => do
    let executable : Bool ← process (.executableFile shell)
    return if executable then shell else ascii "/bin/sh"
  | none => return ascii "/bin/sh"

/-- The command of a session, or the default shell. -/
def startCommand (self : Self) (config : StartupConfig) : Prog (List Bytes) :=
  if config.command = [] then do return [← defaultShell self]
  else return config.command

/-- Start the child on the terminal. -/
def spawnChild (self : Self) (config : StartupConfig) (trace : Option Trace) :
    Io (Option Trace × UInt64 × UInt32) := do
  let command ← startCommand self config
  ask (process .dupSlave)
  ask (process .dupSlave)
  ask (process (.spawnChild command))
  let trace ← traceEvent self trace "child_started"
  let startedAt ← nowSeconds .startRunner
  let childPid ← process .childPid
  return (trace, startedAt, childPid)

/-- The runner's start between taking the ID and the event loop. An error drops the terminal. -/
def prepareRunner (self : Self) (registry : Registry) (session : SessionId) (files : SessionFiles)
    (config : StartupConfig) : Io (RunnerContext × Option Trace) := do
  let trace ←
    (if config.trace then some <$> Trace.create self files.paths.trace "runner" else pure none)
  let trace ← traceEvent self trace "runner_started"
  createPty config.rows config.columns
  match ← attempt (spawnChild self config trace) with
  | .error error =>
    process .closePty
    throw error
  | .ok (trace, startedAt, childPid) =>
    let ctx : RunnerContext := { self, registry, session, files, childPid, startedAt }
    match ← attempt (do
        ctx.writeLive false
        ask (process (.sendResponse startupReady))) with
    | .error error =>
      process .closePty
      ignore (ask (process (.killChild .kill)))
      ignore (ask (process .waitChild))
      throw error
    | .ok () => return (ctx, trace)

/-- Once the launcher has its answer: serve the session. -/
def RunnerContext.serve (ctx : RunnerContext) (trace : Option Trace) : Io Unit := do
  match ← attempt (ask (process .setPtyNonblocking)) with
  | .error error => ctx.abandon error
  | .ok () => ctx.runEventLoop (.start trace)

/-- Take the ID, start the child and serve it. An error before the loop drops the files. -/
def startRunner (serde : Serde) (self : Self) (session : SessionId) (config : StartupConfig) :
    Io Unit := do
  ask (process .setsid)
  process (.umask 0o077)
  let registry ← openRegistry serde self
  let files ← registry.bindSession session
  match ← attempt (prepareRunner self registry session files config) with
  | .error error =>
    files.drop
    throw error
  | .ok (ctx, trace) => ctx.serve trace

/-- The runner process: it reports why it did not start. -/
def hiddenRunner (serde : Serde) (self : Self) (session : SessionId) : Io Unit := do
  match ← attempt (do
      let bytes ← ask (process .recvStartup)
      ask (.ret (readStartupConfig bytes))) with
  | .error error =>
    ignore (ask (process (.sendResponse startupFailed)))
    throw error
  | .ok config =>
    match ← attempt (startRunner serde self session config) with
    | .ok () => return ()
    | .error error =>
      let response := if error.kind = .alreadyExists then startupExists else startupFailed
      ignore (ask (process (.sendResponse response)))
      throw error

/-- Launch a runner, and wait until it is ready. -/
def launchRunner (session : SessionId) (config : StartupConfig) : Io Unit := do
  ask (process (.spawnRunner session))
  ask (process (.sendStartup (writeStartupConfig config).1))
  ask (.ret (writeStartupConfig config).2)
  match ← attempt (ask (process .recvResponse)) with
  | .error error =>
    process .waitRunner
    throw error
  | .ok response =>
    if response = startupReady then return ()
    else if response = startupExists then
      process .waitRunner
      throw sessionExists
    else
      process .waitRunner
      throw (IoError.new .other "session runner failed to start")

end AfkCli
