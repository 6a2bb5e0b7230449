import AfkCli.System

/-!
# The registry

The runtime directory `~/.afk/run` holds, for each session, its socket, its lock, its metadata
record, its completed output and its trace.

## Main definitions

* `SessionMetadata`: the records, and `SessionMetadata.isExpired`
* `Serde`: the JSON text of a record
* `Registry.paths`: the files of a session
* `Registry.bindSession`: taking a session ID
* `Registry.connect`, `Registry.readMetadata`: looking a session up
* `Registry.list`: the records of the directory
* `Registry.cleanupExpired`, `Registry.removeCompleted`, `Registry.removeStaleLive`: removing files
* `atomicWrite`: replacing a file
-/

namespace AfkCli

open Interaction

/-! ## Records -/

inductive ExitMetadata
  | code (code : UInt8)
  | signal (signal : UInt8)
  deriving DecidableEq, Repr

def ExitMetadata.ofProcessExit : ProcessExit → ExitMetadata
  | .code c => .code c
  | .signal s => .signal s

def ExitMetadata.toProcessExit : ExitMetadata → ProcessExit
  | .code c => .code c
  | .signal s => .signal s

inductive SessionMetadata
  | live (sessionId : Bytes) (runnerPid childPid : UInt32) (startedAt : UInt64) (attached : Bool)
  | completed (sessionId : Bytes) (startedAt finishedAt : UInt64) (exit : ExitMetadata)
      (outputBytes : UInt64) (truncated : Bool)
  deriving DecidableEq, Repr

namespace SessionMetadata

def sessionId : SessionMetadata → Bytes
  | live sessionId .. | completed sessionId .. => sessionId

def isExpired (now : UInt64) : SessionMetadata → Bool
  | completed _ _ finishedAt .. => completedRetentionSeconds ≤ now.toNat - finishedAt.toNat
  | live .. => false

def startedAt : SessionMetadata → UInt64
  | live _ _ _ startedAt _ | completed _ startedAt .. => startedAt

end SessionMetadata

/-- `serde_json` on records: every record is read back from its text, and the text of a session's
record is small. -/
structure Serde where
  toVec : SessionMetadata → Bytes
  fromSlice : Bytes → Option SessionMetadata
  fromSlice_toVec : ∀ metadata, fromSlice (toVec metadata) = some metadata
  length_toVec_le : ∀ metadata, metadata.sessionId.length = 32 →
    (toVec metadata).length ≤ maxMetadataBytes

/-! ## Paths -/

structure SessionPaths where
  socket : Name
  metadata : Name
  lock : Name
  output : Name
  trace : Name
  deriving DecidableEq

inductive PathKind
  | regular | socket
  deriving DecidableEq, Repr

/-- The registry of a user: the path of the runtime directory, and the user. -/
structure Registry where
  root : Bytes
  uid : Nat
  serde : Serde

/-- The names of a session's files. -/
def sessionPaths (session : SessionId) : SessionPaths where
  socket := session.toText ++ ascii ".sock"
  metadata := session.toText ++ ascii ".json"
  lock := session.toText ++ ascii ".lock"
  output := session.toText ++ ascii ".out"
  trace := session.toText ++ ascii ".trace"

/-- The session whose metadata record a file name is. -/
def sessionFromMetadataName (name : Name) : Option SessionId :=
  if name.length ≠ 37 ∨ name.drop 32 ≠ ascii ".json" then none
  else SessionId.parseBytes (name.take 32)

/-- The five files of a session have five names. -/
theorem sessionPaths_nodup (session : SessionId) :
    [(sessionPaths session).socket, (sessionPaths session).metadata, (sessionPaths session).lock,
      (sessionPaths session).output, (sessionPaths session).trace].Nodup := by
  simp only [sessionPaths, List.nodup_cons, List.mem_cons, List.not_mem_nil, or_false, not_or,
    List.append_cancel_left_eq, List.nodup_nil, and_true, not_false_eq_true]
  decide

/-- The name `atomic_write` writes to before the rename. -/
def temporaryName (name : Name) (pid : UInt32) : Name :=
  ascii "." ++ name ++ ascii ".tmp." ++ decimal pid.toNat

/-! ## File operations -/

def nowSeconds (site : Site) : Io UInt64 := ask (process (.now site))

/-- The checks of `verify_path` on what `symlink_metadata` reports. -/
def checkEntry (metadata : Stat) (uid : Nat) (kind : PathKind) (mode : Nat) : Except IoError Stat :=
  if metadata.kind = .symlink ∨ metadata.uid ≠ uid then
    .error (IoError.new .permissionDenied "unsafe AFK runtime entry")
  else
    let typeMatches := match kind with
      | .regular => metadata.kind == .regular
      | .socket => metadata.kind == .socket
    -- `bind` creates the socket 0700 under the runner's umask, before AFK narrows it to 0600.
    let modeMatches := match kind with
      | .regular => metadata.mode == mode
      | .socket => metadata.mode == mode || metadata.mode == 0o700
    if !typeMatches || !modeMatches then
      .error (IoError.new .permissionDenied "invalid AFK runtime entry")
    else .ok metadata

/-- The socket passes between its creation and its narrowing, and after. -/
theorem checkEntry_socket {metadata : Stat} {uid : Nat} (hkind : metadata.kind = .socket)
    (huid : metadata.uid = uid) (hmode : metadata.mode = 0o600 ∨ metadata.mode = 0o700) :
    checkEntry metadata uid .socket 0o600 = .ok metadata := by
  rcases hmode with hmode | hmode <;> simp [checkEntry, hkind, huid, hmode]

theorem checkEntry_ok {metadata metadata' : Stat} {uid mode : Nat} {kind : PathKind}
    (h : checkEntry metadata uid kind mode = .ok metadata') : metadata' = metadata := by
  unfold checkEntry at h
  split at h
  · cases h
  · dsimp only at h
    split at h
    · split at h
      · cases h
      · exact (Except.ok.inj h).symm
    · split at h
      · cases h
      · exact (Except.ok.inj h).symm

/-- An entry that is refused is there. -/
theorem checkEntry_error {metadata : Stat} {uid mode : Nat} {kind : PathKind} {error : IoError}
    (h : checkEntry metadata uid kind mode = .error error) : error.kind = .permissionDenied := by
  unfold checkEntry at h
  split at h
  · cases h; rfl
  · dsimp only at h
    split at h
    · split at h
      · cases h; rfl
      · cases h
    · split at h
      · cases h; rfl
      · cases h

def verifyPath (site : Site) (name : Name) (uid : Nat) (kind : PathKind) (mode : Nat) : Io Stat := do
  let metadata ← ask (file (.lstat site name))
  ask (.ret (checkEntry metadata uid kind mode))

def readBoundedFile (name : Name) (uid : Nat) (kind : PathKind) (mode limit : Nat) :
    Io (Option Bytes) := do
  match ← attempt (verifyPath .readBoundedFile name uid kind mode) with
  | .ok metadata =>
    if limit < metadata.len then throw (IoError.invalid "AFK runtime file is too large")
    else
      let bytes ← ask (file (.readFile name limit))
      if limit < bytes.length then throw (IoError.invalid "AFK runtime file is too large")
      else return some bytes
  | .error error => if error.kind = .notFound then return none else throw error

def atomicWrite (self : Self) (name : Name) (bytes : Bytes) : Io Unit := do
  let temporary := temporaryName name self.pid
  let fd ← ask (file (.createNew temporary 0o600))
  match ← attempt (do
      ask (file (.writeAll .atomicWrite fd bytes))
      ask (file (.syncAll fd))
      ask (file (.rename temporary name))) with
  | .ok () => return ()
  | .error error =>
    ignore (ask (file (.removeFile .atomicWrite temporary)))
    throw error

def pathEntryExists (name : Name) : Io Bool := do
  match ← attempt (ask (file (.lstat .pathEntryExists name))) with
  | .ok _ => return true
  | .error error => if error.kind = .notFound then return false else throw error

def removeOwnedEntryIfPresent (name : Name) (uid : Nat) (kind : PathKind) (mode : Nat) :
    Io Unit := do
  match ← attempt (verifyPath .removeStaleLive name uid kind mode) with
  | .ok _ => ask (file (.removeFile .removeStaleLive name))
  | .error error => if error.kind = .notFound then return () else throw error

def removeIfPresent (name : Name) : Io Unit := do
  match ← attempt (ask (file (.removeFile .removeCompleted name))) with
  | .ok () => return ()
  | .error error => if error.kind = .notFound then return () else throw error

def ensurePrivateDirectory (uid : Nat) (path : Bytes) : Nat → Io Unit
  | 0 => ask .spin
  | rounds + 1 => do
    match ← attempt (ask (file (.lstatDirectory path))) with
    | .ok metadata =>
      if metadata.kind ≠ .directory then
        throw (IoError.invalid "AFK runtime path is not a directory")
      else if metadata.uid ≠ uid then
        throw (IoError.new .permissionDenied "AFK runtime directory owner mismatch")
      else ask (file (.setDirectoryPermissions path 0o700))
    | .error error =>
      if error.kind = .notFound then
        match ← attempt (ask (file (.createDirectory path 0o700))) with
        | .ok () => return ()
        | .error error =>
          if error.kind = .alreadyExists then ensurePrivateDirectory uid path rounds
          else throw error
      else throw error

/-- What a runner holds of its session: the listener, the lock file, and the paths it removes. -/
structure SessionFiles where
  listener : Fd
  lock : Fd
  paths : SessionPaths
  deriving DecidableEq

/-- Dropping the files removes the socket and the lock, and closes the listener. -/
def SessionFiles.drop (files : SessionFiles) : Io Unit := do
  ignore (ask (file (.removeFile .dropSessionFiles files.paths.socket)))
  ignore (ask (file (.removeFile .dropSessionFiles files.paths.lock)))
  socket (.closeListener files.listener)

/-- "session exists" -/
def sessionExists : IoError := IoError.new .alreadyExists "session exists"

namespace Registry

variable (R : Registry)

/-- The files of a session; the socket's path must fit the system's limit. -/
def paths (session : SessionId) : Io SessionPaths :=
  let paths := sessionPaths session
  if unixSocketPathBytes < R.root.length + 1 + paths.socket.length then
    throw (IoError.invalid "AFK runtime socket path is too long")
  else return paths

/-- The socket's path fits the system's limit. -/
def Fits (session : SessionId) : Prop :=
  R.root.length + 1 + (sessionPaths session).socket.length ≤ unixSocketPathBytes

variable {R} in
theorem paths_eq {session : SessionId} (h : R.Fits session) :
    R.paths session = pure (sessionPaths session) :=
  if_neg (Nat.not_lt.mpr h)

variable {R} in
theorem paths_error {session : SessionId} (h : ¬ R.Fits session) :
    R.paths session = throw (IoError.invalid "AFK runtime socket path is too long") :=
  if_pos (Nat.lt_of_not_le h)

/-- Connect to a session's runner; the peer must be the owner. A refused peer is dropped. -/
def connect (session : SessionId) : Io Fd := do
  let paths ← R.paths session
  let _ ← verifyPath .connect paths.socket R.uid .socket 0o600
  let stream ← ask (socket (.connect paths.socket))
  match ← attempt (ask (socket (.peerUid stream))) with
  | .ok uid =>
    if uid ≠ R.uid then
      socket (.close stream)
      throw (IoError.new .permissionDenied "session peer owner mismatch")
    else return stream
  | .error error =>
    socket (.close stream)
    throw error

/-- `self.connect(session).is_ok()`: the stream of a successful probe is dropped at once. -/
def connectIsOk (session : SessionId) : Io Bool := do
  match ← attempt (R.connect session) with
  | .ok stream =>
    socket (.close stream)
    return true
  | .error _ => return false

def readMetadata (session : SessionId) : Io (Option SessionMetadata) := do
  let paths ← R.paths session
  match ← readBoundedFile paths.metadata R.uid .regular 0o600 maxMetadataBytes with
  | none => return none
  | some bytes =>
    match R.serde.fromSlice bytes with
    | none => throw (IoError.invalid "invalid session metadata")
    | some metadata =>
      if metadata.sessionId ≠ session.toText then
        throw (IoError.invalid "session metadata identity mismatch")
      else return some metadata

def readOutput (session : SessionId) : Io (Option Bytes) := do
  let paths ← R.paths session
  readBoundedFile paths.output R.uid .regular 0o600 outputTailBytes

def writeMetadata (self : Self) (paths : SessionPaths) (metadata : SessionMetadata) : Io Unit :=
  let encoded := R.serde.toVec metadata
  if maxMetadataBytes < encoded.length then
    throw (IoError.invalid "session metadata is too large")
  else atomicWrite self paths.metadata encoded

def writeOutput (self : Self) (paths : SessionPaths) (output : Bytes) : Io Unit :=
  if outputTailBytes < output.length then
    throw (IoError.invalid "completed output is too large")
  else atomicWrite self paths.output output

def removeLiveFiles (paths : SessionPaths) : Io Unit := do
  ignore (ask (file (.removeFile .removeLiveFiles paths.socket)))
  ignore (ask (file (.removeFile .removeLiveFiles paths.lock)))

def removeCompleted (paths : SessionPaths) : Io Unit := do
  removeIfPresent paths.output
  removeIfPresent paths.trace
  removeIfPresent paths.metadata

def removeStaleLive (paths : SessionPaths) : Io Unit := do
  removeOwnedEntryIfPresent paths.socket R.uid .socket 0o600
  removeOwnedEntryIfPresent paths.lock R.uid .regular 0o600
  removeOwnedEntryIfPresent paths.trace R.uid .regular 0o600
  removeOwnedEntryIfPresent paths.metadata R.uid .regular 0o600

/-- The record check of `bind_session`: an ID is free when it has no record, an expired record, or
a record or leftover files whose runner cannot be reached; what is left of it is removed. -/
def clearSession (session : SessionId) (paths : SessionPaths) : Io Unit := do
  match ← R.readMetadata session with
  | some metadata =>
    let now ← nowSeconds .bindSession
    if metadata.isExpired now then removeCompleted paths
    else
      match metadata with
      | .completed .. => throw sessionExists
      | .live .. =>
        if ← R.connectIsOk session then throw sessionExists else R.removeStaleLive paths
  | none =>
    -- `||` looks at the lock only when there is no socket.
    if ← pathEntryExists paths.socket then
      if ← R.connectIsOk session then throw sessionExists else R.removeStaleLive paths
    else if ← pathEntryExists paths.lock then
      if ← R.connectIsOk session then throw sessionExists else R.removeStaleLive paths
    else return ()

/-- `UnixListener::bind`: a listener that cannot listen is dropped. -/
def bindListener (name : Name) : Io Fd := do
  let listener ← ask (socket (.bind name))
  match ← attempt (ask (socket (.listen listener))) with
  | .ok () => return listener
  | .error error =>
    socket (.closeListener listener)
    throw error

/-- After the socket is bound: narrow its mode, and create the lock. Without the lock the socket
is removed again; an error drops the listener. -/
def lockSession (paths : SessionPaths) (listener : Fd) : Io SessionFiles := do
  match ← attempt (do
      ask (file (.setPermissions paths.socket 0o600))
      ask (socket (.setNonblocking listener true))
      match ← attempt (ask (file (.createNew paths.lock 0o600))) with
      | .ok lock => return lock
      | .error error =>
        ignore (ask (file (.removeFile .bindSession paths.socket)))
        throw error) with
  | .ok lock => return { listener, lock, paths }
  | .error error =>
    socket (.closeListener listener)
    throw error

/-- Take a session ID: clear what a finished or dead runner left, bind the socket, create the
lock. -/
def bindSession (session : SessionId) : Io SessionFiles := do
  let paths ← R.paths session
  R.clearSession session paths
  match ← attempt (bindListener paths.socket) with
  | .ok listener => lockSession paths listener
  | .error error => if error.kind = .addrInUse then throw sessionExists else throw error

/-- Remove the sessions of a listing whose completed record has expired. -/
def cleanupNames (now : UInt64) : List (Except IoError Name) → Io Unit
  | [] => return ()
  | entry :: rest => do
    let name ← ask (.ret entry)
    match sessionFromMetadataName name with
    | none => cleanupNames now rest
    | some session =>
      let paths ← R.paths session
      match ← R.readMetadata session with
      | some metadata =>
        if metadata.isExpired now then
          removeCompleted paths
          cleanupNames now rest
        else cleanupNames now rest
      | none => cleanupNames now rest

def cleanupExpired : Io Unit := do
  let now ← nowSeconds .cleanupExpired
  let entries ← ask (file .readDir)
  R.cleanupNames now (entries.take maxSessionListEntries)

/-- The records of a listing, in its order, after those that were found. Reading stops when 1024 records
are found. -/
def listEntries : List (Except IoError Name) → List SessionMetadata → Io (List SessionMetadata)
  | [], sessions => return sessions
  | entry :: rest, sessions =>
    if sessions.length = maxSessionListEntries then return sessions
    else do
      let name ← ask (.ret entry)
      match sessionFromMetadataName name with
      | none => listEntries rest sessions
      | some session =>
        match ← R.readMetadata session with
        | some metadata => listEntries rest (sessions ++ [metadata])
        | none => listEntries rest sessions

/-- The records of the directory, sorted by their start. The sort is stable. -/
def list : Io (List SessionMetadata) := do
  let entries ← ask (file .readDir)
  let sessions ← R.listEntries entries []
  return sessions.mergeSort fun a b => decide (a.startedAt ≤ b.startedAt)

end Registry

/-- `Path::join` with a relative name. -/
def joinPath (path name : Bytes) : Bytes :=
  if path.getLast? = some 0x2f then path ++ name else path ++ [0x2f] ++ name

/-- `Registry::open`: the private directories, then the expired sessions. -/
def openRegistry (serde : Serde) (self : Self) : Io Registry := do
  match self.home.filter fun path => path.head? = some 0x2f with
  | none => throw (IoError.invalid "HOME must name an absolute directory")
  | some home =>
    let afk := joinPath home (ascii ".afk")
    ensurePrivateDirectory self.uid afk self.rounds
    let root := joinPath afk (ascii "run")
    ensurePrivateDirectory self.uid root self.rounds
    let registry : Registry := { root, uid := self.uid, serde }
    registry.cleanupExpired
    return registry

end AfkCli
