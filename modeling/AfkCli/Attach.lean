import AfkCli.OutputTail
import AfkCli.Platform
import AfkCli.Trace

/-!
# Attachments

The process that joins a session: it shows a completed session's output, or relays between its
terminal and the runner's socket until either side ends; and the client that stops a session.

## Main definitions

* `AttachState`, `attachTurn`, `attachLoop`: the relay
* `attachLive`, `attach`: joining a session
* `stop`: stopping a session
-/

namespace AfkCli

open Interaction

/-- The variables of `attach_live`. -/
structure AttachState where
  socketOutput : ByteQueue
  decoder : Decoder
  stdinClosed : Bool
  trace : Option Trace

/-- How a turn of the relay ends. -/
inductive AttachTurn
  | again (st : AttachState)
  | done (exit : ProcessExit)

/-- The runner closed the connection. -/
def attachmentClosed (error : IoError) : Bool :=
  match error.kind with
  | .brokenPipe | .connectionAborted | .connectionReset | .unexpectedEof => true
  | _ => false

/-- A payload over the limit is refused before it is encoded. -/
def payloadTooLarge : Record → Bool
  | .input bytes | .output bytes => maxIpcPayloadBytes < bytes.length
  | _ => false

def queueRecord (queue : ByteQueue) (record : Record) : Except IoError ByteQueue :=
  if payloadTooLarge record then .error (IoError.new .invalidInput "IPC payload too large")
  else do
    let encoded ← encodeRecord record
    match queue.push encoded with
    | (queue, true) => .ok queue
    | (_, false) => .error (IoError.new .wouldBlock "attachment queue full")

/-- Take one event of the input reader; the answer is whether the input has ended. -/
def receiveInput (queue : ByteQueue) : Io (Bool × ByteQueue) := do
  match ← terminal .tryRecv with
  | .bytes bytes =>
    let queue ← ask (.ret (queueRecord queue (.input bytes)))
    return (false, queue)
  | .closed | .disconnected => return (true, queue)
  | .failed error => throw error
  | .empty => return (false, queue)

/-- One read of the runner's stream, and the records it completes; `none` when it was closed. -/
def readReplies (stream : Fd) (decoder : Decoder) : Io (Option (List Record × Decoder)) := do
  let capacity := min decoder.remainingCapacity ioChunkBytes
  if capacity = 0 then throw invalidRecord
  else
    match ← attempt (ask (socket (.read stream capacity))) with
    | .ok [] => return none
    | .ok bytes =>
      match decoder.push bytes with
      | .error _ => throw invalidRecord
      | .ok decoder =>
        match decoder.drain with
        | .error _ => throw invalidRecord
        | .ok replies => return some replies
    | .error error =>
      if error.kind = .wouldBlock ∨ error.kind = .interrupted then return some ([], decoder)
      else if attachmentClosed error then return none
      else throw error

section

variable (self : Self)

/-- Show the records of one read: the output, and the exit it ends with. The first answer is the
exit, the second whether there was output. -/
def showRecords (trace : Option Trace) (wrote : Bool) : List Record →
    Io (Option ProcessExit × Bool)
  | [] => return (none, wrote)
  | .output bytes :: rest => do
    ask (terminal (.writeOutput bytes))
    showRecords trace true rest
  | .exit status :: _ => do
    let _ ← traceProcessExit self trace "runner_reported_exit" status
    ask (terminal .flushOutput)
    return (some status, wrote)
  | _ => do
    let _ ← traceEvent self trace "invalid_runner_response"
    throw (IoError.new .invalidData "invalid runner response")

/-- A change of the outer terminal's size is sent on. -/
def queueResize (st : AttachState) : Io AttachState := do
  match ← attempt windowSize with
  | .ok (rows, columns) =>
    let socketOutput ← ask (.ret (queueRecord st.socketOutput (.resize rows columns)))
    let trace ← traceEvent self st.trace "resize_queued"
    return { st with socketOutput, trace }
  | .error _ =>
    let trace ← traceEvent self st.trace "resize_dimensions_unavailable"
    return { st with trace }

/-- Take input, until it has ended. -/
def pollInput (st : AttachState) : Io AttachState := do
  if st.stdinClosed then return st
  else
    match ← attempt (receiveInput st.socketOutput) with
    | .ok (closed, socketOutput) =>
      let trace ← (if closed then traceEvent self st.trace "stdin_closed" else pure st.trace)
      return { st with socketOutput, stdinClosed := closed, trace }
    | .error error =>
      let _ ← traceIoError self st.trace "stdin_read_failed" error
      throw error

/-- The runner's stream is readable: show what it sent. -/
def receiveReplies (stream : Fd) (events : PollFlags) (st : AttachState) : Io AttachTurn := do
  let trace ←
    (if events.hangup then traceEvent self st.trace "runner_socket_poll_hangup" else pure st.trace)
  let trace ←
    (if events.error then traceEvent self trace "runner_socket_poll_error" else pure trace)
  match ← attempt (readReplies stream st.decoder) with
  | .error error =>
    let _ ← traceIoError self trace "runner_socket_read_failed" error
    throw error
  | .ok none =>
    let _ ← traceEvent self trace "runner_socket_eof"
    return .done (.code 0)
  | .ok (some (records, decoder)) =>
    match ← showRecords self trace false records with
    | (some status, _) => return .done status
    | (none, wrote) =>
      (if wrote then ask (terminal .flushOutput) else pure ())
      return .again { st with decoder, trace }

/-- What a turn does with the events of the stream: send, then end after the input has ended and
was sent, then receive. -/
def relay (stream : Fd) (events : PollFlags) (st : AttachState) : Io AttachTurn := do
  let (socketOutput, result) ←
    (if events.writable then flushQueue (writeStream stream) self.rounds st.socketOutput
    else pure (st.socketOutput, .ok ()))
  match result with
  | .error error =>
    if attachmentClosed error then
      let _ ← traceIoError self st.trace "runner_socket_closed_during_write" error
      return .done (.code 0)
    else
      let _ ← traceIoError self st.trace "runner_socket_write_failed" error
      throw error
  | .ok () =>
    let st := { st with socketOutput }
    if st.stdinClosed ∧ socketOutput.isEmpty then
      let _ ← traceEvent self st.trace "attachment_ended_after_stdin_close"
      return .done (.code 0)
    else if events.readyToRead then receiveReplies self stream events st
    else return .again st

/-- One turn of the relay. -/
def attachTurn (stream : Fd) (st : AttachState) : Io AttachTurn := do
  let hangup : Bool ← terminal .hangup
  if hangup then
    let _ ← traceEvent self st.trace "attachment_received_sighup"
    return .done (.code 0)
  else
    let terminate : Bool ← terminal .terminate
    if terminate then
      let _ ← traceEvent self st.trace "attachment_received_sigterm"
      return .done (.code 0)
    else
      let resized : Bool ← terminal .resized
      let st ← (if resized then queueResize self st else pure st)
      let st ← pollInput self st
      match ← attempt (ask (terminal (.pollStream stream !st.socketOutput.isEmpty))) with
      | .error error =>
        if error.kind = .interrupted then return .again st
        else
          let _ ← traceIoError self st.trace "attachment_poll_failed" error
          throw error
      | .ok events => relay self stream events st

/-- Turns, until the relay ends. -/
def attachLoop (stream : Fd) : Nat → AttachState → Io ProcessExit
  | 0, _ => ask .spin
  | rounds + 1, st => do
    match ← attachTurn self stream st with
    | .again st => attachLoop stream rounds st
    | .done exit => return exit

/-- With the terminal raw: register the signals, queue the `Attach`, and relay. -/
def attachRaw (stream : Fd) (dimensions : UInt16 × UInt16) (trace : Option Trace) :
    Io ProcessExit := do
  let trace ← traceEvent self trace "raw_terminal_entered"
  match ← attempt (ask (terminal .registerSignals)) with
  | .error error =>
    let _ ← traceIoError self trace "signal_registration_failed" error
    throw error
  | .ok () =>
    let socketOutput ← ask (.ret (queueRecord (.new maxAttachmentQueueBytes)
      (.attach dimensions.1 dimensions.2)))
    attachLoop self stream self.rounds
      { socketOutput, decoder := .empty, stdinClosed := false, trace }

/-- Relay on a connected stream. The terminal is restored, and the stream dropped, at the end. -/
def attachLive (stream : Fd) (trace : Option Trace) : Io ProcessExit := do
  let result ← attempt (do
    ask (socket (.setNonblocking stream true))
    let dimensions ← windowSizeOrDefault
    match ← attempt (ask (terminal .enterRaw)) with
    | .error error =>
      let _ ← traceIoError self trace "raw_terminal_entry_failed" error
      throw error
    | .ok () =>
      let result ← attempt (attachRaw self stream dimensions trace)
      terminal .leaveRaw
      ask (.ret result))
  socket (.close stream)
  ask (.ret result)

end

/-- The line a completed session's output ends with. -/
def completionLine : ProcessExit → Bytes
  | .code c => ascii "\r\n[afk: process exited with code " ++ decimal c.toNat ++ ascii "]\n"
  | .signal s => ascii "\r\n[afk: process exited with signal " ++ decimal s.toNat ++ ascii "]\n"

def writeCompletion (status : ProcessExit) : Io Unit := do
  ask (terminal (.writeOutput (completionLine status)))
  ask (terminal .flushOutput)

/-- The output of a completed session, when there is one. -/
def showOutput : Option Bytes → Io Unit
  | some bytes => ask (terminal (.writeOutput bytes))
  | none => pure ()

/-- Show a completed session: its output, and how it exited. -/
def replayCompleted (registry : Registry) (session : SessionId) (exit : ExitMetadata)
    (truncated : Bool) : Io ProcessExit := do
  (if truncated then ask (terminal (.writeOutput truncationMarker)) else pure ())
  showOutput (← registry.readOutput session)
  writeCompletion exit.toProcessExit
  return exit.toProcessExit

/-- The attachment's trace, when the session has one. -/
def attachmentTrace (self : Self) (registry : Registry) (session : SessionId) (enabled : Bool) :
    Io (Option Trace) := do
  if enabled then
    let paths ← registry.paths session
    match ← attempt (Trace.openTrace self paths.trace "attachment") with
    | .ok trace => return some trace
    | .error error => if error.kind = .notFound then return none else throw error
  else return none

/-- Join a session: its runner when it can be reached, otherwise its completed record. -/
def attach (serde : Serde) (self : Self) (session : SessionId) (traceEnabled : Bool) :
    Io ProcessExit := do
  let registry ← openRegistry serde self
  let trace ← attachmentTrace self registry session traceEnabled
  let trace ← traceEvent self trace "attachment_process_started"
  match ← attempt (registry.connect session) with
  | .ok stream =>
    let trace ← traceEvent self trace "runner_socket_connected"
    attachLive self stream trace
  | .error connectError =>
    let trace ← traceIoError self trace "runner_socket_connect_failed" connectError
    match ← registry.readMetadata session with
    | some (.completed _ _ _ exit _ truncated) =>
      let processExit ← replayCompleted registry session exit truncated
      let _ ← traceProcessExit self trace "completed_session_replayed" processExit
      return processExit
    | _ => throw connectError

/-- `write_all` on a stream. -/
def writeAllStream (stream : Fd) : Nat → Bytes → Io Unit
  | 0, _ => ask .spin
  | rounds + 1, bytes =>
    if bytes = [] then return ()
    else do
      match ← attempt (writeStream stream bytes) with
      | .ok 0 => throw (IoError.new .writeZero "failed to write whole buffer")
      | .ok n => writeAllStream stream rounds (bytes.drop n)
      | .error error =>
        if error.kind = .interrupted then writeAllStream stream rounds bytes else throw error

/-- Read until the runner closes the connection, or a read fails with `TimedOut`; any other error, the
`WouldBlock` of an expired read timeout among them, is passed on. -/
def awaitClose (stream : Fd) : Nat → Io Unit
  | 0 => ask .spin
  | rounds + 1 => do
    match ← attempt (ask (socket (.read stream 1))) with
    | .ok [] => return ()
    | .ok _ => awaitClose stream rounds
    | .error error =>
      if error.kind = .timedOut then return ()
      else if error.kind = .interrupted then awaitClose stream rounds
      else throw error

/-- Ask a session's runner to stop, and wait until it closes the connection. -/
def stop (serde : Serde) (self : Self) (session : SessionId) : Io Unit := do
  let registry ← openRegistry serde self
  let stream ← registry.connect session
  let result ← attempt (do
    let encoded ← ask (.ret (encodeRecord .stop))
    writeAllStream stream self.rounds encoded
    ask (socket (.setReadTimeout stream))
    awaitClose stream self.rounds)
  socket (.close stream)
  ask (.ret result)

end AfkCli
