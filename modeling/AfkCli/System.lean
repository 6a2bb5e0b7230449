import AfkCli.Interaction.Program
import AfkCli.Identity
import AfkCli.Ipc

/-!
# The calls of the program

Everything the program asks of the operating system, one constructor for each call, with the type
of its answer. The functions of the source are programs over these calls; what a call does is left
to the machines they are run on.

A call that the source makes from several functions on the same paths carries the function that
makes it, its `Site`. A `note` asks nothing of the system: it marks a point of the event loop.

## Main definitions

* `IoError`, `ErrorKind`: the errors of `std::io`
* `Call`, `Call.Answer`: the calls and their answers
* `Io`: programs that may fail with an `IoError`
-/

namespace AfkCli

open Interaction

/-! ## Errors -/

/-- `std::io::ErrorKind`. -/
inductive ErrorKind
  | notFound | permissionDenied | connectionRefused | connectionReset | connectionAborted
  | notConnected | addrInUse | brokenPipe | alreadyExists | wouldBlock | invalidInput
  | invalidData | timedOut | writeZero | interrupted | unexpectedEof | outOfMemory | other
  deriving DecidableEq, Repr

/-- `std::io::Error`: its kind, the text the source gives it, and the code of the system. -/
structure IoError where
  kind : ErrorKind
  message : String
  rawOsError : Option Nat
  deriving DecidableEq, Repr

namespace IoError

/-- `io::Error::new`. -/
def new (kind : ErrorKind) (message : String) : IoError := ⟨kind, message, none⟩

/-- An error of the system. -/
def os (kind : ErrorKind) (code : Nat) : IoError := ⟨kind, "", some code⟩

/-- `invalid` of `registry.rs`. -/
def invalid (message : String) : IoError := new .invalidData message

@[simp] theorem kind_new (kind : ErrorKind) (message : String) : (new kind message).kind = kind :=
  rfl

@[simp] theorem kind_os (kind : ErrorKind) (code : Nat) : (os kind code).kind = kind := rfl

@[simp] theorem kind_invalid (message : String) : (invalid message).kind = .invalidData := rfl

end IoError

/-! ## Calls -/

/-- A file name in the runtime directory. -/
abbrev Name := Bytes

/-- An open file, listener or stream. -/
abbrev Fd := Nat

/-- What an entry of a directory is. -/
inductive FileKind
  | regular | socket | symlink | directory | other
  deriving DecidableEq, Repr

/-- What `symlink_metadata` reports of an entry; `mode` is the permission bits. -/
structure Stat where
  kind : FileKind
  uid : Nat
  mode : Nat
  len : Nat
  deriving DecidableEq, Repr

/-- The function that makes a call. -/
inductive Site
  | pathEntryExists | connect | readBoundedFile | removeStaleLive | removeCompleted | bindSession
  | removeLiveFiles | dropSessionFiles | atomicWrite | cleanupExpired | startRunner
  | completeSession | traceOpen | traceWrite
  deriving DecidableEq, Repr

/-- Files of the runtime directory. -/
inductive FileCall
  /-- `fs::symlink_metadata` -/
  | lstat (site : Site) (name : Name)
  /-- `File::open` and `take(limit + 1).read_to_end` -/
  | readFile (name : Name) (limit : Nat)
  /-- `OpenOptions` with `create_new` -/
  | createNew (name : Name) (mode : Nat)
  /-- `OpenOptions` with `append` -/
  | openAppend (name : Name)
  | writeAll (site : Site) (file : Fd) (bytes : Bytes)
  | syncAll (file : Fd)
  | rename (source target : Name)
  | removeFile (site : Site) (name : Name)
  | setPermissions (name : Name) (mode : Nat)
  /-- `fs::read_dir` and its entries -/
  | readDir
  /-- `fs::symlink_metadata` of `~/.afk` or `~/.afk/run` -/
  | lstatDirectory (path : Bytes)
  | createDirectory (path : Bytes) (mode : Nat)
  | setDirectoryPermissions (path : Bytes) (mode : Nat)
  deriving DecidableEq

def FileCall.Answer : FileCall → Type
  | lstat .. | lstatDirectory _ => Except IoError Stat
  | readFile .. => Except IoError Bytes
  | createNew .. | openAppend _ => Except IoError Fd
  | readDir => Except IoError (List (Except IoError Name))
  | _ => Except IoError Unit

/-- Sockets: the listener and its streams. -/
inductive SocketCall
  /-- `bind(2)` of `UnixListener::bind` -/
  | bind (name : Name)
  /-- `listen(2)` of `UnixListener::bind` -/
  | listen (listener : Fd)
  | accept (listener : Fd)
  | connect (name : Name)
  | peerUid (stream : Fd)
  | setNonblocking (fd : Fd) (on : Bool)
  | setReadTimeout (stream : Fd)
  | setWriteTimeout (stream : Fd)
  | read (stream : Fd) (capacity : Nat)
  | write (stream : Fd) (bytes : Bytes)
  /-- a stream is dropped -/
  | close (stream : Fd)
  /-- a listener is dropped -/
  | closeListener (listener : Fd)
  deriving DecidableEq

def SocketCall.Answer : SocketCall → Type
  | bind _ | accept _ | connect _ => Except IoError Fd
  | peerUid _ => Except IoError Nat
  | read .. => Except IoError Bytes
  | write .. => Except IoError Nat
  | close _ | closeListener _ => Unit
  | _ => Except IoError Unit

/-- The events of one descriptor (`PollFlags`). -/
structure PollFlags where
  readable : Bool
  writable : Bool
  hangup : Bool
  error : Bool
  deriving DecidableEq, Repr

namespace PollFlags

def empty : PollFlags := ⟨false, false, false, false⟩

/-- `intersects(IN | HUP | ERR)` -/
def readyToRead (f : PollFlags) : Bool := f.readable || f.hangup || f.error

end PollFlags

/-- The descriptors the runner polls, besides the terminal and the listener: whether the terminal
is polled for writing, the candidate, and the active attachment with whether it is polled for
writing. -/
structure PollRequest where
  ptyWritable : Bool
  candidate : Option Fd
  active : Option (Fd × Bool)
  deriving DecidableEq

/-- The events the runner's poll reports. -/
structure PollReply where
  pty : PollFlags
  listener : PollFlags
  candidate : PollFlags
  active : PollFlags
  deriving DecidableEq, Repr

/-- `std::process::ExitStatus`. -/
structure ExitStatus where
  code : Option Int
  signal : Option Int
  deriving DecidableEq, Repr

/-- The signals the runner sends its child. -/
inductive ChildSignal
  | term | kill
  deriving DecidableEq, Repr

/-- Processes, the clock and the inner terminal. -/
inductive ProcessCall
  /-- `SystemTime::now` in seconds since the epoch -/
  | now (site : Site)
  | setsid
  | umask (mask : Nat)
  /-- whether a path is a file with an execute permission -/
  | executableFile (path : Bytes)
  /-- the launcher spawns `afk __runner` -/
  | spawnRunner (session : SessionId)
  /-- the bytes of `write_startup_config`, on the launcher's end of the start-up socket -/
  | sendStartup (bytes : Bytes)
  /-- the bytes that reach `read_startup_config`, on the runner's end -/
  | recvStartup
  /-- `write_startup_response` -/
  | sendResponse (response : UInt8)
  /-- the launcher's `read_exact` of the response -/
  | recvResponse
  | waitRunner
  /-- `rustix_openpty::openpty` -/
  | openpty (rows columns : UInt16)
  /-- `dup` of the terminal's slave -/
  | dupSlave
  /-- the runner spawns `afk __child` on the slave -/
  | spawnChild (command : List Bytes)
  | childPid
  | tryWait
  | waitChild
  | killChild (signal : ChildSignal)
  /-- whether the grace period of `stop_child` is over -/
  | deadlinePassed
  | sleep
  | setPtyNonblocking
  | readPty (capacity : Nat)
  | writePty (bytes : Bytes)
  | setWindowSize (rows columns : UInt16)
  /-- the master is dropped -/
  | closePty
  | poll (request : PollRequest)
  deriving DecidableEq

def ProcessCall.Answer : ProcessCall → Type
  | now _ => Except IoError UInt64
  | executableFile _ | deadlinePassed => Bool
  | recvStartup => Except IoError Bytes
  | recvResponse => Except IoError UInt8
  | childPid => UInt32
  | tryWait => Except IoError (Option ExitStatus)
  | waitChild => Except IoError ExitStatus
  | readPty _ => Except IoError Bytes
  | writePty _ => Except IoError Nat
  | poll _ => Except IoError PollReply
  | umask _ | waitRunner | sleep | closePty => Unit
  | _ => Except IoError Unit

/-- What the attachment's reader thread sends (`InputEvent`), and an empty or disconnected
channel. -/
inductive InputEvent
  | bytes (bytes : Bytes)
  | closed
  | failed (error : IoError)
  | empty
  | disconnected
  deriving DecidableEq

/-- The attachment's outer terminal, its signals and its output. -/
inductive TerminalCall
  /-- `tcgetwinsize` of stdin -/
  | windowSize
  | enterRaw
  | leaveRaw
  | registerSignals
  /-- the flags of `SIGHUP` and `SIGTERM`, and the swapped flag of `SIGWINCH` -/
  | hangup
  | terminate
  | resized
  | tryRecv
  | pollStream (stream : Fd) (writable : Bool)
  | writeOutput (bytes : Bytes)
  | flushOutput
  deriving DecidableEq

def TerminalCall.Answer : TerminalCall → Type
  | windowSize => Except IoError (UInt16 × UInt16)
  | leaveRaw => Unit
  | hangup | terminate | resized => Bool
  | tryRecv => InputEvent
  | pollStream .. => Except IoError PollFlags
  | _ => Except IoError Unit

/-- A point of the event loop. -/
inductive Note
  /-- the connection became the active attachment -/
  | activated (stream : Fd)
  /-- the connection's `Stop` was accepted -/
  | stopRequested (stream : Fd)
  /-- bytes of the connection were accepted into the terminal's input queue -/
  | inputAccepted (stream : Fd) (bytes : Bytes)
  deriving DecidableEq

inductive Call
  | file (call : FileCall)
  | socket (call : SocketCall)
  | process (call : ProcessCall)
  | terminal (call : TerminalCall)
  | note (note : Note)
  deriving DecidableEq

def Call.Answer : Call → Type
  | file call => call.Answer
  | socket call => call.Answer
  | process call => call.Answer
  | terminal call => call.Answer
  | note _ => Unit

/-! ## Programs that may fail -/

/-- A program without errors. -/
abbrev Prog := Program Call Call.Answer

/-- A program that may fail: `io::Result`, with `?` as its bind. -/
abbrev Io := ExceptT IoError Prog

/-- A program whose result may be an error, as a program that may fail. -/
def ask {α : Type} (p : Prog (Except IoError α)) : Io α := ExceptT.mk p

/-- The result of a program that may fail, error included (`match` on a `Result`). -/
def attempt {α : Type} (p : Io α) : Io (Except IoError α) :=
  ExceptT.mk (p.run.bind fun r => .ret (.ok r))

/-- Run a program and ignore its error (`let _ =`). -/
def ignore {α : Type} (p : Io α) : Io Unit := ExceptT.mk (p.run.bind fun _ => .ret (.ok ()))

def file (call : FileCall) : Prog call.Answer := Program.perform (Call.file call)

def socket (call : SocketCall) : Prog call.Answer := Program.perform (Call.socket call)

def process (call : ProcessCall) : Prog call.Answer := Program.perform (Call.process call)

def terminal (call : TerminalCall) : Prog call.Answer := Program.perform (Call.terminal call)

def note (note : Note) : Prog Unit := Program.perform (Call.note note)

section run

variable {α β : Type}

/-- Continue with a result, or stop with its error. -/
def onOk (f : α → Io β) : Except IoError α → Prog (Except IoError β)
  | .ok a => (f a).run
  | .error error => .ret (.error error)

@[simp] theorem onOk_ok (f : α → Io β) (a : α) : onOk f (.ok a) = (f a).run := rfl

@[simp] theorem onOk_error (f : α → Io β) (error : IoError) :
    onOk f (.error error) = .ret (.error error) := rfl

@[simp] theorem run_pure (a : α) : (pure a : Io α).run = .ret (.ok a) := rfl

@[simp] theorem run_throw (error : IoError) : (throw error : Io α).run = .ret (.error error) := rfl

@[simp] theorem run_ask (p : Prog (Except IoError α)) : (ask p).run = p := rfl

theorem run_bind (p : Io α) (f : α → Io β) : (p >>= f).run = p.run.bind (onOk f) := by
  simp only [ExceptT.run_bind, Program.bind_eq]
  congr 1
  funext r
  cases r <;> rfl

theorem run_attempt (p : Io α) : (attempt p).run = p.run.bind fun r => .ret (.ok r) := rfl

theorem run_attempt_bind (p : Io α) (f : Except IoError α → Io β) :
    (attempt p >>= f).run = p.run.bind fun r => (f r).run := by
  rw [run_bind, run_attempt, Program.bind_assoc]
  rfl

theorem run_ignore_bind (p : Io α) (f : Unit → Io β) :
    (ignore p >>= f).run = p.run.bind fun _ => (f ()).run := by
  rw [run_bind, ignore, ExceptT.run_mk, Program.bind_assoc]
  rfl

theorem run_ignore (p : Io α) : (ignore p).run = p.run.bind fun _ => .ret (.ok ()) := rfl

theorem run_lift (p : Prog α) : (liftM p : Io α).run = p.bind fun a => .ret (.ok a) := rfl

theorem run_lift_bind (p : Prog α) (f : α → Io β) :
    ((liftM p : Io α) >>= f).run = p.bind fun a => (f a).run := by
  rw [run_bind, run_lift, Program.bind_assoc]
  rfl

end run

/-- What a process is started with. `rounds` bounds the rounds of each loop of the process, so
that every program is finite; properties hold for every bound. -/
structure Self where
  pid : UInt32
  uid : Nat
  home : Option Bytes
  shell : Option Bytes
  rounds : Nat

end AfkCli
