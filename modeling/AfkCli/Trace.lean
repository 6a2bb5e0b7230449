import AfkCli.Registry

/-!
# Lifecycle traces

A trace file takes one line for each event, up to 1 MiB. A process counts what it wrote itself and
the length it found when it opened the file.

## Main definitions

* `Trace`, `Trace.create`, `Trace.openTrace`: an open trace file
* `Trace.write`: append one event, within the bound
* `traceEvent`, `traceIoError`, `traceProcessExit`: events of a process that may have no trace
-/

namespace AfkCli

def maxTraceBytes : Nat := 1024 * 1024

structure Trace where
  file : Fd
  component : String
  written : Nat

/-- The name an error kind is traced under. -/
def errorKind : ErrorKind → String
  | .notFound => "not_found"
  | .permissionDenied => "permission_denied"
  | .connectionRefused => "connection_refused"
  | .connectionReset => "connection_reset"
  | .connectionAborted => "connection_aborted"
  | .notConnected => "not_connected"
  | .brokenPipe => "broken_pipe"
  | .alreadyExists => "already_exists"
  | .wouldBlock => "would_block"
  | .invalidInput => "invalid_input"
  | .invalidData => "invalid_data"
  | .timedOut => "timed_out"
  | .writeZero => "write_zero"
  | .interrupted => "interrupted"
  | .unexpectedEof => "unexpected_eof"
  | .outOfMemory => "out_of_memory"
  | .addrInUse | .other => "other"

namespace Trace

/-- The line of an event. -/
def line (timestamp pid : Nat) (component event : String) (detail : Bytes) : Bytes :=
  ascii "timestamp=" ++ decimal timestamp ++ ascii " pid=" ++ decimal pid ++
    ascii " component=" ++ ascii component ++ ascii " event=" ++ ascii event ++ detail ++ ascii "\n"

/-- Append one event; a full trace, or a failed write, leaves the count as it was. -/
def write (self : Self) (trace : Trace) (event : String) (detail : Bytes) : Prog Trace :=
  if maxTraceBytes ≤ trace.written then return trace
  else do
    let timestamp ← (nowSeconds .traceWrite).run
    let line := line (timestamp.toOption.getD 0).toNat self.pid.toNat trace.component event detail
    if maxTraceBytes < trace.written + line.length then return trace
    else
      match ← AfkCli.file (.writeAll .traceWrite trace.file line) with
      | .ok () => return { trace with written := trace.written + line.length }
      | .error _ => return trace

def event (self : Self) (trace : Trace) (event : String) : Prog Trace := trace.write self event []

def ioError (self : Self) (trace : Trace) (event : String) (error : IoError) : Prog Trace :=
  let kind := ascii " error_kind=" ++ ascii (errorKind error.kind)
  match error.rawOsError with
  | some code => trace.write self event (kind ++ ascii " os_error=" ++ decimal code)
  | none => trace.write self event kind

def metric (self : Self) (trace : Trace) (event name : String) (value : Nat) : Prog Trace :=
  trace.write self event (ascii " " ++ ascii name ++ ascii "=" ++ decimal value)

/-- A new trace file. -/
def create (self : Self) (name : Name) (component : String) : Io Trace := do
  let fd ← ask (AfkCli.file (.createNew name 0o600))
  event self { file := fd, component, written := 0 } "trace_started"

/-- The trace file of a session, as an attachment joins it. -/
def openTrace (self : Self) (name : Name) (component : String) : Io Trace := do
  let metadata ← ask (AfkCli.file (.lstat .traceOpen name))
  if metadata.kind ≠ .regular ∨ metadata.uid ≠ self.uid ∨ metadata.mode ≠ 0o600 ∨
      maxTraceBytes < metadata.len then
    throw (IoError.new .permissionDenied "unsafe trace file")
  else
    let fd ← ask (AfkCli.file (.openAppend name))
    event self { file := fd, component, written := metadata.len } "trace_opened"

end Trace

def traceEvent (self : Self) (trace : Option Trace) (event : String) : Prog (Option Trace) :=
  match trace with
  | some trace => some <$> trace.event self event
  | none => return none

def traceIoError (self : Self) (trace : Option Trace) (event : String) (error : IoError) :
    Prog (Option Trace) :=
  match trace with
  | some trace => some <$> trace.ioError self event error
  | none => return none

def traceProcessExit (self : Self) (trace : Option Trace) (event : String) (exit : ProcessExit) :
    Prog (Option Trace) :=
  match trace with
  | some trace =>
    match exit with
    | .code c => some <$> trace.metric self event "exit_code" c.toNat
    | .signal s => some <$> trace.metric self event "signal" s.toNat
  | none => return none

end AfkCli
