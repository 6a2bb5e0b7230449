import AfkCli.Interaction.Interleaving
import AfkCli.System

/-!
# The system the processes run on

The runtime directory with its inodes, the listeners of its sockets, the clock, and the
start-up channel between each launcher and its runner. These answer their calls as the operating
system does. What the terminals, the streams' peers and the children do is outside: a machine takes
their answers from a relation `Outside`, and everything proved holds for any of them.

An open file or listener is named by its inode, and a stream by a number no inode has.

## Main definitions

* `Proc`: the processes
* `Kernel`: the state, and `Kernel.step`: what a call does to it
* `Call.error?`: the error a call failed with
* `Failures`: the calls that may fail, though the state of the system does not make them
* `Kernel.machine`: the machine that runs the processes
* `Kernel.play`: running processes in a given order

## Main results

* `Kernel.play_reaches`: what is played is a run
-/

namespace AfkCli

open Interaction Function

/-- A command, and the runner it launches. -/
inductive Proc
  | caller (n : Nat)
  | runner (n : Nat)
  deriving DecidableEq, Repr

/-- The listener of a socket's inode. -/
inductive Listener
  | closed | bound | listening
  deriving DecidableEq, Repr

/-- A file or socket, with the process that created it; `none` created the files found at the
start. -/
structure Inode where
  kind : FileKind
  uid : Nat
  mode : Nat
  bytes : Bytes
  creator : Option Proc
  listener : Listener
  deriving DecidableEq

def Inode.stat (node : Inode) : Stat := ⟨node.kind, node.uid, node.mode, node.bytes.length⟩

/-- The state of the system. The inodes from `fresh` on are unused. -/
structure Kernel where
  uid : Nat
  dir : Name → Option Nat
  inode : Nat → Inode
  fresh : Nat
  directories : Bytes → Bool
  clock : UInt64
  umask : Proc → Nat
  killed : Proc → Bool
  /-- the runner of the caller was spawned -/
  spawned : Nat → Bool
  /-- what the caller sent its runner -/
  startup : Nat → Option Bytes
  /-- what the runner answered its caller -/
  response : Nat → Option UInt8

/-- What the outside may answer a call. -/
abbrev Outside := (call : Call) → call.Answer → Prop

/-- Every answer. -/
def Outside.any : Outside := fun _ _ => True

/-! ## Failures -/

def errorOf {α : Type} : Except IoError α → Option IoError
  | .ok _ => none
  | .error error => some error

theorem Kernel.errorOf_eq_some {α : Type} {r : Except IoError α} {error : IoError} :
    errorOf r = some error ↔ r = .error error := by
  cases r <;> simp [errorOf]

def FileCall.error? : (call : FileCall) → call.Answer → Option IoError
  | .lstat .., r | .lstatDirectory _, r => errorOf r
  | .readFile .., r => errorOf r
  | .createNew .., r | .openAppend _, r => errorOf r
  | .readDir, r => errorOf r
  | .writeAll .., r | .syncAll _, r | .rename .., r | .removeFile .., r | .setPermissions .., r
  | .createDirectory .., r | .setDirectoryPermissions .., r => errorOf r

def SocketCall.error? : (call : SocketCall) → call.Answer → Option IoError
  | .bind _, r | .accept _, r | .connect _, r => errorOf r
  | .peerUid _, r | .write .., r => errorOf r
  | .read .., r => errorOf r
  | .close _, _ | .closeListener _, _ => none
  | .listen _, r | .setNonblocking .., r | .setReadTimeout _, r | .setWriteTimeout _, r => errorOf r

def ProcessCall.error? : (call : ProcessCall) → call.Answer → Option IoError
  | .now _, r => errorOf r
  | .recvStartup, r | .readPty _, r => errorOf r
  | .recvResponse, r => errorOf r
  | .tryWait, r => errorOf r
  | .waitChild, r => errorOf r
  | .writePty _, r => errorOf r
  | .poll _, r => errorOf r
  | .executableFile _, _ | .deadlinePassed, _ | .childPid, _ => none
  | .umask _, _ | .waitRunner, _ | .sleep, _ | .closePty, _ => none
  | .setsid, r | .spawnRunner _, r | .sendStartup _, r | .sendResponse _, r | .openpty .., r
  | .dupSlave, r | .spawnChild _, r | .killChild _, r | .setPtyNonblocking, r
  | .setWindowSize .., r => errorOf r

/-- The error a call failed with. The calls of an attachment's terminal change no file. -/
def Call.error? : (op : Call) → op.Answer → Option IoError
  | .file call, r => call.error? r
  | .socket call, r => call.error? r
  | .process call, r => call.error? r
  | .terminal _, _ => none
  | .note _, _ => none

/-- The calls that may fail in a state, and how. -/
abbrev Failures := Call → Kernel → IoError → Prop

namespace Failures

/-- No call fails but for the state of the system. -/
def none : Failures := fun _ _ _ => False

/-- Any call may fail. -/
def any : Failures := fun _ _ _ => True

end Failures

namespace Kernel

/-! ## Answers -/

def notFound : IoError := IoError.os .notFound 2

def connectionRefused : IoError := IoError.os .connectionRefused 111

def addrInUse : IoError := IoError.os .addrInUse 98

def fileExists : IoError := IoError.os .alreadyExists 17

def isDirectory : IoError := IoError.os .other 21

def brokenPipe : IoError := IoError.os .brokenPipe 32

def unexpectedEof : IoError := IoError.new .unexpectedEof "failed to fill whole buffer"

/-- The inode of a name. -/
def lookup (s : Kernel) (name : Name) : Option Inode := (s.dir name).map s.inode

/-! ## Changes -/

/-- A new entry for a new inode. -/
def create (s : Kernel) (name : Name) (node : Inode) : Kernel :=
  { s with
    dir := update s.dir name (some s.fresh)
    inode := update s.inode s.fresh node
    fresh := s.fresh + 1 }

def modify (s : Kernel) (n : Nat) (f : Inode → Inode) : Kernel :=
  { s with inode := update s.inode n (f (s.inode n)) }

def unlink (s : Kernel) (name : Name) : Kernel := { s with dir := update s.dir name none }

/-- The permissions of a new entry. -/
def masked (s : Kernel) (i : Proc) (mode : Nat) : Nat := mode - (mode &&& s.umask i)

def newFile (s : Kernel) (i : Proc) (mode : Nat) : Inode :=
  ⟨.regular, s.uid, s.masked i mode, [], some i, .closed⟩

def newSocket (s : Kernel) (i : Proc) : Inode :=
  ⟨.socket, s.uid, s.masked i 0o777, [], some i, .bound⟩

/-! ## Calls -/

/-- Files. What lies behind an entry that is not a regular file is outside. -/
def fileStep (i : Proc) (s : Kernel) : (call : FileCall) → call.Answer → call.Answer × Kernel
  | .lstat _ name, _ =>
    match s.dir name with
    | none => (.error notFound, s)
    | some n => (.ok (s.inode n).stat, s)
  | .readFile name limit, outside =>
    match s.dir name with
    | none => (.error notFound, s)
    | some n =>
      if (s.inode n).kind = .regular then (.ok ((s.inode n).bytes.take (limit + 1)), s)
      else (outside, s)
  | .createNew name mode, _ =>
    match s.dir name with
    | none => (.ok s.fresh, s.create name (s.newFile i mode))
    | some _ => (.error fileExists, s)
  | .openAppend name, outside =>
    match s.dir name with
    | none => (.error notFound, s)
    | some n => if (s.inode n).kind = .regular then (.ok n, s) else (outside, s)
  | .writeAll _ fd bytes, _ =>
    (.ok (), s.modify fd fun node => { node with bytes := node.bytes ++ bytes })
  | .syncAll _, _ => (.ok (), s)
  | .rename source target, _ =>
    match s.dir source with
    | none => (.error notFound, s)
    | some n => (.ok (), { s with dir := update (update s.dir source none) target (some n) })
  | .removeFile _ name, _ =>
    match s.dir name with
    | none => (.error notFound, s)
    | some n => if (s.inode n).kind = .directory then (.error isDirectory, s)
      else (.ok (), s.unlink name)
  | .setPermissions name mode, _ =>
    match s.dir name with
    | none => (.error notFound, s)
    | some n => (.ok (), s.modify n fun node => { node with mode })
  | .readDir, outside => (outside, s)
  | .lstatDirectory path, _ =>
    if s.directories path then (.ok ⟨.directory, s.uid, 0o700, 0⟩, s) else (.error notFound, s)
  | .createDirectory path _, _ =>
    if s.directories path then (.error fileExists, s)
    else (.ok (), { s with directories := update s.directories path true })
  | .setDirectoryPermissions _ _, _ => (.ok (), s)

/-- Sockets. Only the user's processes reach a socket of the private directory. -/
def socketStep (i : Proc) (s : Kernel) : (call : SocketCall) → call.Answer → call.Answer × Kernel
  | .bind name, _ =>
    match s.dir name with
    | none => (.ok s.fresh, s.create name (s.newSocket i))
    | some _ => (.error addrInUse, s)
  | .listen fd, _ => (.ok (), s.modify fd fun node => { node with listener := .listening })
  | .connect name, _ =>
    match s.dir name with
    | none => (.error notFound, s)
    | some n =>
      if (s.inode n).listener = .listening then (.ok s.fresh, { s with fresh := s.fresh + 1 })
      else (.error connectionRefused, s)
  | .closeListener fd, _ => ((), s.modify fd fun node => { node with listener := .closed })
  | .peerUid _, _ => (.ok s.uid, s)
  | .accept _, outside => (outside, s)
  | .setNonblocking _ _, outside => (outside, s)
  | .setReadTimeout _, outside => (outside, s)
  | .setWriteTimeout _, outside => (outside, s)
  | .read _ _, outside => (outside, s)
  | .write _ _, outside => (outside, s)
  | .close _, _ => ((), s)

/-- The start-up channel, the clock and the mask; `none` while the call is blocked. A launcher may
find that its runner has exited at any time after the answer. -/
def processStep (i : Proc) (s : Kernel) :
    (call : ProcessCall) → call.Answer → Option (call.Answer × Kernel)
  | .now _, _ => some (.ok s.clock, s)
  | .umask mask, _ => some ((), { s with umask := update s.umask i mask })
  | .spawnRunner _, outside =>
    match i with
    | .caller n => some (.ok (), { s with spawned := update s.spawned n true })
    | .runner _ => some (outside, s)
  | .sendStartup bytes, outside =>
    match i with
    | .caller n =>
      if s.killed (.runner n) then some (.error brokenPipe, s)
      else some (.ok (), { s with startup := update s.startup n (some bytes) })
    | .runner _ => some (outside, s)
  | .recvStartup, outside =>
    match i with
    | .caller _ => some (outside, s)
    | .runner n =>
      match s.startup n with
      | some bytes => some (.ok bytes, s)
      | none =>
        if s.spawned n ∧ s.killed (.caller n) then some (.error unexpectedEof, s) else none
  | .sendResponse response, outside =>
    match i with
    | .caller _ => some (outside, s)
    | .runner n =>
      if s.killed (.caller n) then some (.error brokenPipe, s)
      else
        some (.ok (),
          { s with response := update s.response n (some ((s.response n).getD response)) })
  | .recvResponse, outside =>
    match i with
    | .caller n =>
      match s.response n with
      | some response => some (.ok response, s)
      | none => if s.killed (.runner n) then some (.error unexpectedEof, s) else none
    | .runner _ => some (outside, s)
  | _, outside => some (outside, s)

/-- A call of process `i`: its answer and the state after it, or `none` while it is blocked. -/
def step (i : Proc) (s : Kernel) : (call : Call) → call.Answer → Option (call.Answer × Kernel)
  | .file call, outside => some (s.fileStep i call outside)
  | .socket call, outside => some (s.socketStep i call outside)
  | .process call, outside => s.processStep i call outside
  | .terminal _, outside => some (outside, s)
  | .note _, _ => some ((), s)

/-- Killing a process closes its listeners. -/
def kill (i : Proc) (s : Kernel) : Kernel :=
  { s with
    killed := update s.killed i true
    inode := fun n =>
      if (s.inode n).creator = some i then { s.inode n with listener := .closed }
      else s.inode n }

/-! ## The machine -/

/-- The processes' machine: calls that do what the system does, or fail and change nothing, a clock
that advances, and kills. -/
def machine (A : Outside) (F : Failures) : Machine Proc Call Call.Answer Kernel where
  exec i call s r s' := (∃ outside, A call outside ∧ s.step i call outside = some (r, s')) ∨
    ∃ error, call.error? r = some error ∧ F call s error ∧ s' = s
  env s s' := ∃ now, s.clock ≤ now ∧ s' = { s with clock := now }
  crash i s s' := s' = s.kill i

/-! ## Playing a schedule -/

/-- A host with an empty runtime directory, on which every process has the mask `mask`. -/
def boot (uid mask : Nat) (clock : UInt64) : Kernel where
  uid := uid
  dir := fun _ => none
  inode := fun _ => ⟨.other, uid, 0, [], none, .closed⟩
  fresh := 0
  directories := fun _ => false
  clock := clock
  umask := fun _ => mask
  killed := fun _ => false
  spawned := fun _ => false
  startup := fun _ => none
  response := fun _ => none

/-- Answers of an outside on which nothing happens: no input, no output, no connection. -/
def quietAnswer : (call : Call) → call.Answer
  | .file call => match call with
    | .lstat .. | .lstatDirectory _ => .error notFound
    | .readFile .. => .error notFound
    | .createNew .. | .openAppend _ => .error notFound
    | .readDir => .ok []
    | .writeAll .. | .syncAll _ | .rename .. | .removeFile .. | .setPermissions ..
    | .createDirectory .. | .setDirectoryPermissions .. => .ok ()
  | .socket call => match call with
    | .bind _ | .accept _ | .connect _ => .error (IoError.os .wouldBlock 11)
    | .peerUid _ => .error (IoError.os .wouldBlock 11)
    | .read .. => .error (IoError.os .wouldBlock 11)
    | .write .. => .error (IoError.os .wouldBlock 11)
    | .close _ | .closeListener _ => ()
    | .listen _ | .setNonblocking .. | .setReadTimeout _ | .setWriteTimeout _ => .ok ()
  | .process call => match call with
    | .now _ => .ok 0
    | .executableFile _ | .deadlinePassed => false
    | .recvStartup => .error (IoError.os .wouldBlock 11)
    | .recvResponse => .error (IoError.os .wouldBlock 11)
    | .childPid => (1 : UInt32)
    | .tryWait => .ok none
    | .waitChild => .ok ⟨some 0, none⟩
    | .readPty _ => .error (IoError.os .wouldBlock 11)
    | .writePty _ => .error (IoError.os .wouldBlock 11)
    | .poll _ => .ok ⟨.empty, .empty, .empty, .empty⟩
    | .umask _ | .waitRunner | .sleep | .closePty => ()
    | .setsid | .spawnRunner _ | .sendStartup _ | .sendResponse _ | .openpty .. | .dupSlave
    | .spawnChild _ | .killChild _ | .setPtyNonblocking | .setWindowSize .. => .ok ()
  | .terminal call => match call with
    | .windowSize => .ok (24, 80)
    | .leaveRaw => ()
    | .hangup | .terminate | .resized => false
    | .tryRecv => .empty
    | .pollStream .. => .ok .empty
    | .enterRaw | .registerSignals | .writeOutput _ | .flushOutput => .ok ()
  | .note _ => ()

/-- One move of a schedule: a process makes some calls, its next call fails, or it is killed. -/
inductive Move
  | run (i : Proc) (calls : Nat)
  | fail (i : Proc)
  | kill (i : Proc)

def Move.proc : Move → Proc
  | run i _ | fail i | kill i => i

section play

variable {α : Proc → Type} (outside failing : (call : Call) → call.Answer)
  (allowed : Proc → Call → Kernel → (Proc → Option Call) → Bool)

/-- Process `i` makes its next call, if the call is allowed. -/
def advance (i : Proc) (c : Config Proc Call Call.Answer α Kernel) :
    Option (Config Proc Call Call.Answer α Kernel) :=
  match c.pool i with
  | .call op k =>
    if allowed i op c.state c.nexts then
      match c.state.step i op (outside op) with
      | some (r, s') => some ⟨s', update c.pool i (k r)⟩
      | none => none
    else none
  | _ => none

def advances (i : Proc) : Nat → Config Proc Call Call.Answer α Kernel →
    Option (Config Proc Call Call.Answer α Kernel)
  | 0, c => some c
  | n + 1, c => (advance outside allowed i c).bind (advances i n)

/-- The next call of process `i` fails, if it is allowed. -/
def stumble (i : Proc) (c : Config Proc Call Call.Answer α Kernel) :
    Option (Config Proc Call Call.Answer α Kernel) :=
  match c.pool i with
  | .call op k =>
    if allowed i op c.state c.nexts && (op.error? (failing op)).isSome then
      some ⟨c.state, update c.pool i (k (failing op))⟩
    else none
  | _ => none

/-- Make the moves, in order. -/
def play : List Move → Config Proc Call Call.Answer α Kernel →
    Option (Config Proc Call Call.Answer α Kernel)
  | [], c => some c
  | .run i n :: moves, c => (advances outside allowed i n c).bind (play moves)
  | .fail i :: moves, c => (stumble failing allowed i c).bind (play moves)
  | .kill i :: moves, c => play moves ⟨c.state.kill i, update c.pool i .spin⟩

variable {outside failing allowed} {A : Outside} {F : Failures} {C : Guard Proc Call Kernel}
  {i : Proc} {c c' : Config Proc Call Call.Answer α Kernel}

theorem nexts_update {s' : Kernel} {p : Program Call Call.Answer (α i)} {j : Proc} (hj : j ≠ i) :
    (Config.mk s' (update c.pool i p)).nexts j = c.nexts j := by
  simp only [Config.nexts, update_of_ne hj]

theorem advance_step (hA : ∀ call, A call (outside call))
    (hC : ∀ op, allowed i op c.state c.nexts = true → C i op c.state c.nexts)
    (h : advance outside allowed i c = some c') :
    Step (machine A F) C c c' ∧ ∀ j, j ≠ i → c'.nexts j = c.nexts j := by
  unfold advance at h
  cases hp : c.pool i with
  | ret a => simp [hp] at h
  | spin => simp [hp] at h
  | call op k =>
    simp only [hp] at h
    split at h
    · rename_i hallowed
      cases hs : c.state.step i op (outside op) with
      | none => simp [hs] at h
      | some result =>
        obtain ⟨r, s'⟩ := result
        simp only [hs, Option.some.injEq] at h
        subst h
        exact ⟨.call hp (hC op hallowed) (.inl ⟨outside op, hA op, hs⟩), fun j => nexts_update⟩
    · cases h

theorem stumble_step (hF : ∀ op s error, op.error? (failing op) = some error → F op s error)
    (hC : ∀ op, allowed i op c.state c.nexts = true → C i op c.state c.nexts)
    (h : stumble failing allowed i c = some c') :
    Step (machine A F) C c c' ∧ ∀ j, j ≠ i → c'.nexts j = c.nexts j := by
  unfold stumble at h
  cases hp : c.pool i with
  | ret a => simp [hp] at h
  | spin => simp [hp] at h
  | call op k =>
    simp only [hp] at h
    split at h
    · rename_i hallowed
      obtain ⟨hallowed, hfails⟩ := Bool.and_eq_true_iff.mp hallowed
      obtain ⟨error, herror⟩ := Option.isSome_iff_exists.mp hfails
      obtain rfl := Option.some.inj h
      exact ⟨.call hp (hC op hallowed) (.inr ⟨error, herror, hF _ _ _ herror, rfl⟩),
        fun j => nexts_update⟩
    · cases h

/-- Calls of one process, while the others stand still. -/
theorem advances_reaches (hA : ∀ call, A call (outside call)) {n : Nat}
    (hC : ∀ op s next, (∀ j, j ≠ i → next j = c.nexts j) → allowed i op s next = true →
      C i op s next)
    (h : advances outside allowed i n c = some c') :
    Reaches (machine A F) C c c' ∧ ∀ j, j ≠ i → c'.nexts j = c.nexts j := by
  induction n generalizing c with
  | zero =>
    simp only [advances, Option.some.injEq] at h
    subst h
    exact ⟨.refl, fun _ _ => rfl⟩
  | succ n ih =>
    simp only [advances, Option.bind_eq_some_iff] at h
    obtain ⟨d, hd, h⟩ := h
    obtain ⟨hstep, hothers⟩ := advance_step (F := F) hA (fun op => hC op _ _ fun _ _ => rfl) hd
    obtain ⟨hreaches, hothers'⟩ := ih (fun op s next hnext => hC op s next fun j hj => by
      rw [hnext j hj, hothers j hj]) h
    exact ⟨.head hstep hreaches, fun j hj => (hothers' j hj).trans (hothers j hj)⟩

/-- **What is played is a run**: the processes that do not move keep their next calls. -/
theorem play_reaches (hA : ∀ call, A call (outside call)) {moves : List Move}
    (hF : ∀ i, .fail i ∈ moves → ∀ op s error, op.error? (failing op) = some error → F op s error)
    (hC : ∀ i op s next, (∀ j, (∀ move ∈ moves, move.proc ≠ j) → next j = c.nexts j) →
      allowed i op s next = true → C i op s next)
    (h : play outside failing allowed moves c = some c') : Reaches (machine A F) C c c' := by
  induction moves generalizing c with
  | nil =>
    simp only [play, Option.some.injEq] at h
    exact h ▸ .refl
  | cons move moves ih =>
    -- Who moves later may do so from where the first move led.
    have hrest : ∀ {d : Config Proc Call Call.Answer α Kernel},
        (∀ j, j ≠ move.proc → d.nexts j = c.nexts j) →
          ∀ i op s next, (∀ j, (∀ move ∈ moves, move.proc ≠ j) → next j = d.nexts j) →
            allowed i op s next = true → C i op s next := by
      intro d hothers i op s next hnext
      refine hC i op s next fun j hj => ?_
      rw [hnext j fun move hmove => hj move (List.mem_cons_of_mem _ hmove)]
      exact hothers j (Ne.symm (hj move List.mem_cons_self))
    have hfails := fun i hi => hF i (List.mem_cons_of_mem move hi)
    have hfirst : ∀ op, allowed move.proc op c.state c.nexts = true →
        C move.proc op c.state c.nexts := fun op => hC _ op _ _ fun _ _ => rfl
    cases move with
    | run i n =>
      simp only [play, Option.bind_eq_some_iff] at h
      obtain ⟨d, hd, h⟩ := h
      obtain ⟨hreaches, hothers⟩ := advances_reaches (F := F) hA (fun op s next hnext =>
        hC i op s next fun j hj => hnext j (Ne.symm (hj _ List.mem_cons_self))) hd
      exact hreaches.trans (ih hfails (hrest hothers) h)
    | fail i =>
      simp only [play, Option.bind_eq_some_iff] at h
      obtain ⟨d, hd, h⟩ := h
      obtain ⟨hstep, hothers⟩ := stumble_step (A := A) (hF i List.mem_cons_self) hfirst hd
      exact .head hstep (ih hfails (hrest hothers) h)
    | kill i =>
      simp only [play] at h
      exact .head (.crash rfl) (ih hfails (hrest fun j => nexts_update) h)

end play

end Kernel

end AfkCli
