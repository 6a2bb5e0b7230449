import AfkCli.Calls
import AfkCli.Json

/-!
# One runner for each session ID

`Registry::bind_session` takes a session ID with no lock held around its steps. Processes that run
it for one ID exclude each other as long as nobody takes the ID while another is between its failed
probe and its removal of what it found stale, and no probe of a socket that is open fails.

## Main definitions

* `Leftover`: the states an earlier crashed runner leaves
* `Undisturbed`: the guard on runs
* `failures`: the calls that may fail
* `Belongs`: a socket or lock of a process that still runs

## Main results

* `exclusive_of_undisturbed`: undisturbed processes exclude each other
* `two_holders`: without either condition two processes can hold one session
-/

namespace AfkCli

namespace Exclusion

open Interaction Discipline Function

variable (R : Registry) (session : SessionId)

/-! ## The state -/

/-- The lock is that of a process that still runs. -/
def LockHeld (s : Kernel) : Prop :=
  ∃ n j, s.dir (sessionPaths session).lock = some n ∧ (s.inode n).creator = some j ∧
    s.killed j = false

/-- The lock is not that of process `i`. -/
def Lockless (i : Proc) (s : Kernel) : Prop :=
  ∀ n, s.dir (sessionPaths session).lock = some n → (s.inode n).creator ≠ some i

/-- Process `i` listens on the socket. -/
def Serves (i : Proc) (s : Kernel) : Prop :=
  ∃ n, s.dir (sessionPaths session).socket = some n ∧ (s.inode n).creator = some i ∧
    (s.inode n).listener = .listening

/-- What every run of `bind_session` keeps. -/
structure Inv (s : Kernel) : Prop where
  uid : s.uid = R.uid
  umask : ∀ i, s.umask i = 0o077
  used : ∀ name n, s.dir name = some n → n < s.fresh
  metadata : s.dir (sessionPaths session).metadata = none
  socket : ∀ n, s.dir (sessionPaths session).socket = some n → (s.inode n).kind = .socket ∧
    (s.inode n).uid = s.uid ∧ ((s.inode n).mode = 0o600 ∨ (s.inode n).mode = 0o700)
  running : ∀ n, s.dir (sessionPaths session).socket = some n → (s.inode n).listener ≠ .closed →
    ∃ i, (s.inode n).creator = some i ∧ s.killed i = false
  held : ∀ n j, s.dir (sessionPaths session).lock = some n → (s.inode n).creator = some j →
    s.killed j = false → Serves session j s

/-- The calls with which `remove_stale_live` removes an entry. -/
def Removing (name : Name) (op : Option Call) : Prop :=
  op = some (.file (.lstat .removeStaleLive name)) ∨
    op = some (.file (.removeFile .removeStaleLive name))

/-- Nobody binds the socket, or creates the lock, while another process is between its failed
probe and its removal of the socket, or the lock; and no probe finds a socket that is bound and
does not listen yet. -/
def Undisturbed : Guard Proc Call Kernel := fun i op s n =>
  match op with
  | .socket (.bind name) => name = (sessionPaths session).socket →
      ∀ j, j ≠ i → ¬ Removing name (n j)
  | .file (.createNew name _) => name = (sessionPaths session).lock →
      ∀ j, j ≠ i → ¬ Removing name (n j)
  | .socket (.connect name) => name = (sessionPaths session).socket →
      ∀ m, s.dir name = some m → (s.inode m).listener ≠ .bound
  | _ => True

/-- No process has the socket open. -/
def Unserved (s : Kernel) : Prop :=
  ∀ n, s.dir (sessionPaths session).socket = some n → (s.inode n).listener = .closed

/-- The calls that may fail: any but those of a probe whose socket a process has open. A probe that
is connected has such a socket. -/
def failures : Failures := fun op s _ =>
  match op with
  | .file (.lstat .connect _) | .socket (.connect _) => Unserved session s
  | .socket (.peerUid _) => False
  | _ => True

/-- What a process guarantees of the state in which it makes a call. -/
def Guarantee (i : Proc) (op : Call) (s : Kernel) : Prop :=
  match op with
  | .file (.removeFile _ name) =>
      (name = (sessionPaths session).socket → ¬ LockHeld session s ∧
        ∀ m, s.dir name = some m → (s.inode m).listener ≠ .closed →
          (s.inode m).creator = some i) ∧
      (name = (sessionPaths session).lock → ¬ LockHeld session s)
  | .file (.createNew name _) => name = (sessionPaths session).lock ∧ Serves session i s
  | .file (.setPermissions _ mode) => mode = 0o600
  | .file (.rename _ _) => False
  | .socket (.bind name) => name = (sessionPaths session).socket ∧ s.killed i = false
  | .socket (.listen fd) => (s.inode fd).creator = some i ∧ (s.inode fd).listener = .bound
  | .socket (.closeListener fd) => (s.inode fd).creator = some i ∧ Lockless session i s
  | .process (.umask _) => False
  | _ => True

/-! ## The invariant -/

theorem paths_ne (session : SessionId) : (sessionPaths session).socket ≠ (sessionPaths session).metadata ∧
    (sessionPaths session).socket ≠ (sessionPaths session).lock ∧
    (sessionPaths session).lock ≠ (sessionPaths session).metadata := by
  have h := sessionPaths_nodup session
  simp only [List.nodup_cons, List.mem_cons, not_or] at h
  exact ⟨h.1.1, h.1.2.1, Ne.symm h.2.1.1⟩

section invariant

variable {R session} {s s' : Kernel} {i j : Proc} {op : Call}

/-- An inode's contents and permissions do not matter. -/
theorem Inv.modify {n : Nat} {f : Inode → Inode} (h : Inv R session s)
    (hkind : (f (s.inode n)).kind = (s.inode n).kind) (huid : (f (s.inode n)).uid = (s.inode n).uid)
    (hmode : (f (s.inode n)).mode = (s.inode n).mode ∨ (f (s.inode n)).mode = 0o600)
    (hcreator : (f (s.inode n)).creator = (s.inode n).creator)
    (hlistener : (f (s.inode n)).listener = (s.inode n).listener ∨
      (f (s.inode n)).listener = .listening ∧ (s.inode n).listener ≠ .closed ∨
      (f (s.inode n)).listener = .closed ∧
        ∀ j, (s.inode n).creator = some j → Lockless session j s) :
    Inv R session (s.modify n f) where
  uid := h.uid
  umask := h.umask
  used := h.used
  metadata := h.metadata
  socket m hm := by
    obtain ⟨hk, hu, ho⟩ := h.socket m hm
    by_cases hmn : m = n
    · subst hmn
      simp only [Kernel.modify, update_self, hkind, huid]
      refine ⟨hk, hu, ?_⟩
      rcases hmode with hmode | hmode
      · rw [hmode]; exact ho
      · exact .inl hmode
    · simpa only [Kernel.modify, update_of_ne hmn] using ⟨hk, hu, ho⟩
  running m hm hopen := by
    by_cases hmn : m = n
    · subst hmn
      simp only [Kernel.modify, update_self, hcreator] at hopen ⊢
      refine h.running m hm ?_
      rcases hlistener with hl | ⟨-, hl⟩ | ⟨hl, -⟩
      · rwa [hl] at hopen
      · exact hl
      · exact absurd hl hopen
    · simp only [Kernel.modify, update_of_ne hmn] at hopen ⊢
      exact h.running m hm hopen
  held m j hm hj hk := by
    have hj' : (s.inode m).creator = some j := by
      by_cases hmn : m = n
      · subst hmn
        simpa only [Kernel.modify, update_self, hcreator] using hj
      · simpa only [Kernel.modify, update_of_ne hmn] using hj
    obtain ⟨l, hl, hc, hs⟩ := h.held m j hm hj' hk
    refine ⟨l, hl, ?_⟩
    by_cases hln : l = n
    · subst hln
      simp only [Kernel.modify, update_self, hcreator]
      refine ⟨hc, ?_⟩
      rcases hlistener with hl | ⟨hl, -⟩ | ⟨-, hfree⟩
      · rw [hl]; exact hs
      · exact hl
      · exact absurd hj' (hfree j hc m hm)
    · simpa only [Kernel.modify, update_of_ne hln] using ⟨hc, hs⟩

theorem Inv.same (h : Inv R session s) (hfiles : SameFiles s s') (hhost : SameHost s s') :
    Inv R session s' := by
  obtain ⟨hdir, hinode, humask, hfresh⟩ := hfiles
  obtain ⟨hkilled, huid, -⟩ := hhost
  have hused := h.used
  constructor
  · rw [huid]; exact h.uid
  · rw [humask]; exact h.umask
  · intro name n hn
    rw [hdir] at hn
    exact Nat.lt_of_lt_of_le (h.used name n hn) hfresh
  · rw [hdir]; exact h.metadata
  · rw [hdir, hinode, huid]; exact h.socket
  · rw [hdir, hinode, hkilled]; exact h.running
  · rw [hdir, hinode, hkilled]
    intro n j hn hj hk
    obtain ⟨m, hm⟩ := h.held n j hn hj hk
    exact ⟨m, by rwa [hdir, hinode]⟩

theorem Inv.bind (h : Inv R session s) (hnone : s.dir (sessionPaths session).socket = none)
    (hk : s.killed i = false) :
    Inv R session (s.create (sessionPaths session).socket (s.newSocket i)) where
  uid := h.uid
  umask := h.umask
  used name n hn := by
    simp only [Kernel.create] at hn ⊢
    by_cases hname : name = (sessionPaths session).socket
    · subst hname
      simp only [update_self, Option.some.injEq] at hn
      omega
    · rw [update_of_ne hname] at hn
      exact Nat.lt_succ_of_lt (h.used name n hn)
  metadata := by
    simpa only [Kernel.create, update_of_ne (Ne.symm (paths_ne session).1)]
      using h.metadata
  socket n hn := by
    simp only [Kernel.create, update_self, Option.some.injEq] at hn
    subst hn
    have hmode : s.masked i 0o777 = 0o700 := by simp [Kernel.masked, h.umask]
    simp only [Kernel.create, update_self]
    exact ⟨rfl, rfl, .inr hmode⟩
  running n hn _ := by
    simp only [Kernel.create, update_self, Option.some.injEq] at hn
    subst hn
    simp only [Kernel.create, update_self]
    exact ⟨i, rfl, hk⟩
  held n j hn hj hkj := by
    simp only [Kernel.create, update_of_ne (Ne.symm (paths_ne session).2.1)] at hn
    have hne : n ≠ s.fresh := Nat.ne_of_lt (h.used _ n hn)
    simp only [Kernel.create, update_of_ne hne] at hj
    obtain ⟨m, hm, -⟩ := h.held n j hn hj hkj
    simp [hnone] at hm

theorem Inv.lock {mode : Nat} (h : Inv R session s) (hserves : Serves session i s) :
    Inv R session (s.create (sessionPaths session).lock (s.newFile i mode)) := by
  have hsocket := (paths_ne session).2.1
  have hne : ∀ n, s.dir (sessionPaths session).socket = some n → n ≠ s.fresh :=
    fun n hn => Nat.ne_of_lt (h.used _ n hn)
  constructor
  · exact h.uid
  · exact h.umask
  · intro name n hn
    simp only [Kernel.create] at hn ⊢
    by_cases hname : name = (sessionPaths session).lock
    · subst hname
      simp only [update_self, Option.some.injEq] at hn
      omega
    · rw [update_of_ne hname] at hn
      exact Nat.lt_succ_of_lt (h.used name n hn)
  · simpa only [Kernel.create, update_of_ne (Ne.symm (paths_ne session).2.2)]
      using h.metadata
  · intro n hn
    simp only [Kernel.create, update_of_ne hsocket] at hn ⊢
    rw [update_of_ne (hne n hn)]
    exact h.socket n hn
  · intro n hn
    simp only [Kernel.create, update_of_ne hsocket] at hn ⊢
    rw [update_of_ne (hne n hn)]
    exact h.running n hn
  · intro n j hn hj hk
    obtain ⟨m, hm, hc, hl⟩ := hserves
    simp only [Kernel.create, update_self, Option.some.injEq] at hn
    subst hn
    simp only [Kernel.create, update_self, Kernel.newFile, Option.some.injEq] at hj
    subst hj
    refine ⟨m, ?_⟩
    simp only [Kernel.create, update_of_ne hsocket, update_of_ne (hne m hm)]
    exact ⟨hm, hc, hl⟩

theorem Inv.unlink {name : Name} (h : Inv R session s)
    (hfree : name = (sessionPaths session).socket → ¬ LockHeld session s) :
    Inv R session (s.unlink name) := by
  have hdir : ∀ {other n}, (s.unlink name).dir other = some n → s.dir other = some n := by
    intro other n hn
    by_cases hother : other = name
    · subst hother
      simp [Kernel.unlink] at hn
    · simpa only [Kernel.unlink, update_of_ne hother] using hn
  constructor
  · exact h.uid
  · exact h.umask
  · exact fun other n hn => h.used other n (hdir hn)
  · by_cases hname : (sessionPaths session).metadata = name
    · simp [Kernel.unlink, hname]
    · simpa only [Kernel.unlink, update_of_ne hname] using h.metadata
  · exact fun n hn => h.socket n (hdir hn)
  · exact fun n hn => h.running n (hdir hn)
  · intro n j hn hj hk
    obtain ⟨m, hm, hs⟩ := h.held n j (hdir hn) hj hk
    refine ⟨m, ?_, hs⟩
    by_cases hname : (sessionPaths session).socket = name
    · exact absurd ⟨n, j, hdir hn, hj, hk⟩ (hfree hname.symm)
    · simpa only [Kernel.unlink, update_of_ne hname] using hm

theorem Inv.kill (h : Inv R session s) (j : Proc) : Inv R session (s.kill j) := by
  constructor
  · exact h.uid
  · exact h.umask
  · exact h.used
  · exact h.metadata
  · intro n hn
    simp only [Kernel.kill]
    split <;> exact h.socket n hn
  · intro n hn hopen
    simp only [Kernel.kill] at hopen ⊢
    split at hopen
    · exact absurd rfl hopen
    · rename_i hc
      obtain ⟨i, hi, hk⟩ := h.running n hn hopen
      have hij : i ≠ j := fun hij => hc (hij ▸ hi)
      refine ⟨i, by rwa [if_neg hc], ?_⟩
      simpa only [update_of_ne hij] using hk
  · intro n i hn hi hk
    have hij : i ≠ j := by
      rintro rfl
      simp [Kernel.kill] at hk
    have hi' : (s.inode n).creator = some i := by
      simp only [Kernel.kill] at hi
      split at hi <;> exact hi
    simp only [Kernel.kill, update_of_ne hij] at hk
    obtain ⟨m, hm, hc, hl⟩ := h.held n i hn hi' hk
    have hne : (s.inode m).creator ≠ some j := by
      rw [hc]
      exact fun he => hij (Option.some.inj he)
    refine ⟨m, hm, ?_⟩
    simp only [Kernel.kill, if_neg hne]
    exact ⟨hc, hl⟩

/-- A call made with its guarantee keeps the invariant. -/
theorem Inv.effect (h : Inv R session s) (hguar : Guarantee session i op s)
    (heffect : Effect i op s s') (hhost : SameHost s s') : Inv R session s' := by
  cases heffect with
  | quiet hsame => exact h.same hsame hhost
  | mask => exact hguar.elim
  | createFile hnone =>
    obtain ⟨rfl, hserves⟩ := hguar
    exact h.lock hserves
  | bind hnone =>
    obtain ⟨rfl, hk⟩ := hguar
    exact h.bind hnone hk
  | unlink hsome => exact h.unlink fun hname => (hguar.1 hname).1
  | rename hsome => exact hguar.elim
  | write => exact h.modify rfl rfl (.inl rfl) rfl (.inl rfl)
  | chmod hsome => exact h.modify rfl rfl (.inr hguar) rfl (.inl rfl)
  | listen =>
    refine h.modify rfl rfl (.inl rfl) rfl (.inr (.inl ⟨rfl, ?_⟩))
    rw [hguar.2]
    exact Listener.noConfusion
  | close =>
    refine h.modify rfl rfl (.inl rfl) rfl (.inr (.inr ⟨rfl, fun j hj => ?_⟩))
    obtain rfl := Option.some.inj (hguar.1.symm.trans hj)
    exact hguar.2

end invariant

variable (A : Outside)

/-- The discipline of processes that run `bind_session` undisturbed. -/
def discipline : Discipline (Kernel.machine A (failures session)) where
  inv := Inv R session
  guard := Undisturbed session
  guar := Guarantee session
  inv_exec h _ _ hguar hexec := h.effect hguar (Kernel.effect hexec) (Kernel.exec_same hexec)
  inv_env := by
    rintro s s' h ⟨now, -, rfl⟩
    exact ⟨h.uid, h.umask, h.used, h.metadata, h.socket, h.running, h.held⟩
  inv_crash := by
    rintro j s s' h rfl
    exact h.kill j

/-! ## Assertions -/

/-- Process `i` runs and does not have the lock. -/
def Idle (i : Proc) (s : Kernel) : Prop := s.killed i = false ∧ Lockless session i s

/-- Nobody listens on the socket, and nobody has the lock. -/
def Vacant (s : Kernel) : Prop := Unserved session s ∧ ¬ LockHeld session s

/-- The socket is that of process `i`. -/
def Bound (i : Proc) (fd : Fd) (listener : Listener) (s : Kernel) : Prop :=
  s.dir (sessionPaths session).socket = some fd ∧ (s.inode fd).creator = some i ∧
    (s.inode fd).listener = listener

/-- Process `i` created the listener. -/
def Created (i : Proc) (fd : Fd) (s : Kernel) : Prop :=
  fd < s.fresh ∧ (s.inode fd).creator = some i

/-- Process `i` holds the session's files. -/
def Holds (i : Proc) (files : SessionFiles) (s : Kernel) : Prop :=
  s.killed i = false ∧ Bound session i files.listener .listening s ∧
    s.dir (sessionPaths session).lock = some files.lock ∧
    (s.inode files.lock).creator = some i

/-- The result of `bind_session`: with the files, the process holds them. -/
def Taken (i : Proc) (result : Except IoError SessionFiles) (s : Kernel) : Prop :=
  ∀ files, result = .ok files → Holds session i files s

section assertions

variable {R session} {A} {i : Proc} {mine : Option Call} {s s' : Kernel}

/-- A lock that was created by process `i` after the step was so before, or `i` made the step. -/
theorem lockless_effect {j : Proc} {op : Call} (hinv : Inv R session s)
    (heffect : Effect j op s s') (hguar : Guarantee session j op s) (hij : j ≠ i)
    (h : Lockless session i s) : Lockless session i s' := by
  intro n hn hc
  rcases heffect.appears hn with hold | ⟨-, rfl, ⟨mode, rfl, hnode⟩ | ⟨rfl, hnode⟩⟩ | ⟨_, rfl, _⟩
  · rw [(heffect.node (hinv.used _ n hold)).2.2] at hc
    exact h n hold hc
  · rw [hnode] at hc
    exact hij (Option.some.inj hc)
  · rw [hnode] at hc
    exact hij (Option.some.inj hc)
  · exact hguar

theorem kill_creator (s : Kernel) (j : Proc) (n : Nat) :
    ((s.kill j).inode n).creator = (s.inode n).creator := by
  simp only [Kernel.kill]
  split <;> rfl

theorem idle_stable : (discipline R session A).Stable i mine (Idle session i) := by
  rintro s s' hrely ⟨hk, hl⟩
  obtain ⟨hinv, -, ⟨j, op, n, hj, -, -, hguar, heffect, hhost⟩ | ⟨_, _, rfl⟩ | ⟨j, hj, rfl⟩⟩ :=
    rely_cases hrely
  · exact ⟨by rw [hhost.killed, hk], lockless_effect hinv heffect hguar hj hl⟩
  · exact ⟨hk, hl⟩
  · refine ⟨by simpa only [Kernel.kill, update_of_ne (Ne.symm hj)] using hk, fun n hn hc => ?_⟩
    rw [kill_creator] at hc
    exact hl n hn hc

theorem vacant_stable (hmine : Removing (sessionPaths session).socket mine) :
    (discipline R session A).Stable i mine (Vacant session) := by
  rintro s s' hrely ⟨hclosed, hfree⟩
  obtain ⟨hinv, hinv', h⟩ := rely_cases hrely
  have hclosed' : ∀ n, s'.dir (sessionPaths session).socket = some n →
      (s'.inode n).listener = .closed := by
    intro n hn
    rcases h with ⟨j, op, next, hj, hnext, hguard, hguar, heffect, -⟩ | ⟨_, _, rfl⟩ | ⟨j, hj, rfl⟩
    · rcases heffect.appears hn with
        hold | ⟨-, rfl, ⟨mode, rfl, -⟩ | ⟨rfl, -⟩⟩ | ⟨_, rfl, _⟩
      · rcases heffect.listener (hinv.used _ n hold) with hl | ⟨rfl, -⟩ | ⟨-, hl⟩
        · rw [hl]; exact hclosed n hold
        · have hbound : (s.inode n).listener = .bound := hguar.2
          rw [hclosed n hold] at hbound
          cases hbound
        · exact hl
      · exact absurd hguar.1 (paths_ne session).2.1
      · rw [← hnext] at hmine
        exact absurd hmine (hguard rfl i (Ne.symm hj))
      · exact hguar.elim
    · exact hclosed n hn
    · simp only [Kernel.kill]
      split
      · rfl
      · exact hclosed n hn
  refine ⟨hclosed', ?_⟩
  rintro ⟨n, j, hn, hc, hk⟩
  obtain ⟨m, hm, -, hl⟩ := hinv'.held n j hn hc hk
  rw [hclosed' m hm] at hl
  cases hl

theorem unlocked_stable (hmine : Removing (sessionPaths session).lock mine) :
    (discipline R session A).Stable i mine fun s => ¬ LockHeld session s := by
  rintro s s' hrely hfree ⟨n, k, hn, hc, hk⟩
  obtain ⟨hinv, -, ⟨j, op, next, hj, hnext, hguard, hguar, heffect, hhost⟩ | ⟨_, _, rfl⟩ |
    ⟨j, hj, rfl⟩⟩ := rely_cases hrely
  · rcases heffect.appears hn with hold | ⟨-, rfl, ⟨mode, rfl, -⟩ | ⟨rfl, -⟩⟩ | ⟨_, rfl, _⟩
    · rw [(heffect.node (hinv.used _ n hold)).2.2] at hc
      rw [hhost.killed] at hk
      exact hfree ⟨n, k, hold, hc, hk⟩
    · rw [← hnext] at hmine
      exact hguard rfl i (Ne.symm hj) hmine
    · exact absurd hguar.1 (Ne.symm (paths_ne session).2.1)
    · exact hguar
  · exact hfree ⟨n, k, hn, hc, hk⟩
  · rw [kill_creator] at hc
    refine hfree ⟨n, k, hn, hc, ?_⟩
    by_cases hkj : k = j
    · subst hkj
      simp [Kernel.kill] at hk
    · simpa only [Kernel.kill, update_of_ne hkj] using hk

theorem bound_stable {fd : Fd} {listener : Listener} (hopen : listener ≠ .closed) :
    (discipline R session A).Stable i mine (Bound session i fd listener) := by
  rintro s s' hrely ⟨hdir, hc, hl⟩
  obtain ⟨hinv, -, ⟨j, op, next, hj, -, -, hguar, heffect, -⟩ | ⟨_, _, rfl⟩ | ⟨j, hj, rfl⟩⟩ :=
    rely_cases hrely
  · have hij : ¬ some i = some j := fun h => hj (Option.some.inj h).symm
    refine ⟨?_, ?_, ?_⟩
    · rcases heffect.stays hdir with hstay | ⟨site, rfl⟩ | ⟨other, rfl | rfl⟩
      · exact hstay
      · have hcreator := (hguar.1 rfl).2 fd hdir (hl ▸ hopen)
        exact absurd (hc.symm.trans hcreator) hij
      · exact hguar.elim
      · exact hguar.elim
    · rw [(heffect.node (hinv.used _ fd hdir)).2.2, hc]
    · rcases heffect.listener (hinv.used _ fd hdir) with hsame | ⟨rfl, -⟩ | ⟨rfl, -⟩
      · rw [hsame, hl]
      · exact absurd (hc.symm.trans hguar.1) hij
      · exact absurd (hc.symm.trans hguar.1) hij
  · exact ⟨hdir, hc, hl⟩
  · have hne : (s.inode fd).creator ≠ some j := by
      rw [hc]
      exact fun h => hj (Option.some.inj h).symm
    refine ⟨hdir, ?_, ?_⟩
    · rw [kill_creator, hc]
    · simpa only [Kernel.kill, if_neg hne] using hl

theorem created_stable {fd : Fd} :
    (discipline R session A).Stable i mine (Created i fd) := by
  rintro s s' hrely ⟨hlt, hc⟩
  obtain ⟨-, -, ⟨j, op, next, -, -, -, -, heffect, -⟩ | ⟨_, _, rfl⟩ | ⟨j, -, rfl⟩⟩ :=
    rely_cases hrely
  · exact ⟨Nat.lt_of_lt_of_le hlt heffect.fresh_le, by rw [(heffect.node hlt).2.2, hc]⟩
  · exact ⟨hlt, hc⟩
  · exact ⟨hlt, by rw [kill_creator, hc]⟩

theorem holds_stable {files : SessionFiles} :
    (discipline R session A).Stable i mine (Holds session i files) := by
  rintro s s' hrely ⟨hk, hbound, hlock, hc⟩
  have hbound' := bound_stable (by simp) s s' hrely hbound
  obtain ⟨hinv, -, ⟨j, op, next, hj, -, -, hguar, heffect, hhost⟩ | ⟨_, _, rfl⟩ | ⟨j, hj, rfl⟩⟩ :=
    rely_cases hrely
  · refine ⟨by rw [hhost.killed, hk], hbound', ?_, ?_⟩
    · rcases heffect.stays hlock with hstay | ⟨site, rfl⟩ | ⟨other, rfl | rfl⟩
      · exact hstay
      · exact absurd ⟨_, i, hlock, hc, hk⟩ (hguar.2 rfl)
      · exact hguar.elim
      · exact hguar.elim
    · rw [(heffect.node (hinv.used _ _ hlock)).2.2, hc]
  · exact ⟨hk, hbound', hlock, hc⟩
  · refine ⟨by simpa only [Kernel.kill, update_of_ne (Ne.symm hj)] using hk, hbound', hlock, ?_⟩
    rw [kill_creator, hc]

theorem taken_stable {result : Except IoError SessionFiles} :
    (discipline R session A).Stable i mine (Taken session i result) :=
  fun s s' hrely h files hfiles => holds_stable s s' hrely (h files hfiles)

end assertions

/-! ## The functions of the registry -/

section specs

variable {R session} {A} {i : Proc} {s : Kernel}

theorem wp_removeOwnedEntryIfPresent {name : Name} {uid mode : Nat} {kind : PathKind}
    {P : Kernel → Prop}
    (hstable : ∀ op, Removing name op → (discipline R session A).Stable i op P)
    (hguar : ∀ s, P s → Guarantee session i (.file (.removeFile .removeStaleLive name)) s)
    (hunlink : ∀ s, P s → P (s.unlink name)) (hP : P s) :
    (discipline R session A).wp i (removeOwnedEntryIfPresent name uid kind mode).run
      (fun _ s' => P s') s := by
  have hremove : ∀ s, P s → (discipline R session A).wp i
      (ask (file (.removeFile .removeStaleLive name))).run (fun _ s' => P s') s := fun s hP =>
    wp_removeFile P hP (hstable _ (.inr rfl)) fun s' n hready =>
      ⟨hguar s' hready.assertion, fun _ _ => hready.assertion, fun _ => hready.assertion,
        fun m _ => ⟨fun _ => hready.assertion, fun _ _ => hunlink s' hready.assertion⟩⟩
  have hverify : (discipline R session A).wp i
      (verifyPath .removeStaleLive name uid kind mode).run (fun _ s' => P s') s := by
    refine wp_seq (fun _ s' => P s') ?_ (fun _ _ h => h) (fun _ _ h => h)
    exact wp_lstat P hP (hstable _ (.inl rfl)) fun s' n hready =>
      ⟨trivial, fun _ _ => hready.assertion, fun _ => hready.assertion,
        fun _ _ => hready.assertion⟩
  refine wp_attempt_bind.mpr (wp_mono (fun r s' hP' => ?_) hverify)
  cases r with
  | ok _ => exact hremove s' hP'
  | error error =>
    dsimp only
    split <;> exact hP'

theorem wp_removeStaleLive (hidle : Idle session i s) (hvacant : Vacant session s) :
    (discipline R session A).wp i (R.removeStaleLive (sessionPaths session)).run
      (fun _ s' => Idle session i s') s := by
  have hunlink : ∀ name s, Idle session i s → Idle session i (s.unlink name) := by
    rintro name s ⟨hk, hl⟩
    refine ⟨hk, fun n hn => hl n ?_⟩
    by_cases hname : (sessionPaths session).lock = name
    · simp [Kernel.unlink, hname] at hn
    · simpa only [Kernel.unlink, update_of_ne hname] using hn
  have hlocked : ∀ name s, LockHeld session (s.unlink name) → LockHeld session s := by
    rintro name s ⟨n, j, hn, hc, hk⟩
    refine ⟨n, j, ?_, hc, hk⟩
    by_cases hname : (sessionPaths session).lock = name
    · simp [Kernel.unlink, hname] at hn
    · simpa only [Kernel.unlink, update_of_ne hname] using hn
  have hother : ∀ name, name ≠ (sessionPaths session).socket → name ≠ (sessionPaths session).lock →
      ∀ s, Idle session i s → (discipline R session A).wp i
        (removeOwnedEntryIfPresent name R.uid .regular 0o600).run
          (fun _ s' => Idle session i s') s := fun name hsocket hlock s hidle =>
    wp_removeOwnedEntryIfPresent (fun _ _ => idle_stable)
      (fun _ _ => ⟨fun h => absurd h hsocket, fun h => absurd h hlock⟩) (hunlink name) hidle
  have hnames := sessionPaths_nodup session
  simp only [List.nodup_cons, List.mem_cons, List.not_mem_nil, or_false, not_or] at hnames
  unfold Registry.removeStaleLive
  -- The socket: nobody listens on it, and nobody can bind it while it is looked at.
  refine wp_seq (fun _ s' => Idle session i s' ∧ Vacant session s') ?_ ?_ (fun _ _ h => h.1)
  · refine wp_removeOwnedEntryIfPresent (fun op hop => idle_stable.and (vacant_stable hop)) ?_ ?_
      ⟨hidle, hvacant⟩
    · rintro s ⟨-, hclosed, hfree⟩
      exact ⟨fun _ => ⟨hfree, fun m hm ho => absurd (hclosed m hm) ho⟩, fun _ => hfree⟩
    · rintro s ⟨hidle, hclosed, hfree⟩
      refine ⟨hunlink _ s hidle, ?_, fun h => hfree (hlocked _ s h)⟩
      intro n hn
      simp [Kernel.unlink] at hn
  -- The lock: the socket may be bound by now, but the lock is not created.
  · rintro - s₁ ⟨hidle, -, hfree⟩
    refine wp_seq (fun _ s' => Idle session i s' ∧ ¬ LockHeld session s') ?_ ?_ (fun _ _ h => h.1)
    · refine wp_removeOwnedEntryIfPresent (fun op hop => idle_stable.and (unlocked_stable hop)) ?_
        ?_ ⟨hidle, hfree⟩
      · rintro s ⟨-, hfree⟩
        exact ⟨fun h => absurd h.symm (paths_ne session).2.1, fun _ => hfree⟩
      · rintro s ⟨hidle, hfree⟩
        exact ⟨hunlink _ s hidle, fun h => hfree (hlocked _ s h)⟩
    · rintro - s₂ ⟨hidle, -⟩
      refine wp_seq (fun _ s' => Idle session i s') ?_ ?_ (fun _ _ h => h)
      · exact hother _ (Ne.symm hnames.1.2.2.2) (Ne.symm hnames.2.2.1.2) s₂ hidle
      · rintro - s₃ hidle
        exact hother _ (Ne.symm (paths_ne session).1) (Ne.symm (paths_ne session).2.2) s₃ hidle

/-- A probe that fails has found that nobody serves the session. -/
theorem wp_connectSession (hfits : R.Fits session) (hidle : Idle session i s) :
    (discipline R session A).wp i (R.connect session).run
      (fun r s' => Idle session i s' ∧ ∀ error, r = .error error → Vacant session s') s := by
  have hvacant : ∀ s, Inv R session s → Unserved session s → Vacant session s := by
    refine fun s hinv hclosed => ⟨hclosed, ?_⟩
    rintro ⟨n, j, hn, hc, hk⟩
    obtain ⟨m, hm, -, hl⟩ := hinv.held n j hn hc hk
    rw [hclosed m hm] at hl
    cases hl
  have hmissing : ∀ s, Inv R session s → s.dir (sessionPaths session).socket = none →
      Vacant session s := fun s hinv hdir =>
    hvacant s hinv fun n hn => by simp [hdir] at hn
  unfold Registry.connect
  rw [Registry.paths_eq hfits, pure_bind]
  refine wp_seq (fun r s' => Idle session i s' ∧ ∀ error, r = .error error → Vacant session s')
    ?_ ?_ (fun error _ h => ⟨h.1, fun _ _ => h.2 error rfl⟩)
  · -- The socket that is found passes the checks.
    refine wp_seq (fun r s' => Idle session i s' ∧ (∀ error, r = .error error → Vacant session s') ∧
      ∀ metadata, r = .ok metadata → checkEntry metadata R.uid .socket 0o600 = .ok metadata)
      ?_ ?_ (fun error _ h => ⟨h.1, fun _ _ => h.2.1 error rfl⟩)
    · refine wp_lstat (Idle session i) hidle idle_stable fun s' n hready =>
        ⟨trivial, fun error hfails => ⟨hready.assertion,
            fun _ _ => hvacant s' hready.inv hfails, fun _ h => by cases h⟩,
          fun hdir => ⟨hready.assertion, fun _ _ => hmissing s' hready.inv hdir,
            fun _ h => by cases h⟩,
          fun m hdir => ⟨hready.assertion, fun _ h => (by cases h), ?_⟩⟩
      rintro metadata h
      cases h
      have hinv : Inv R session s' := hready.inv
      obtain ⟨hkind, huid, hmode⟩ := hinv.socket m hdir
      exact checkEntry_socket hkind (huid.trans hinv.uid) hmode
    · rintro metadata s' ⟨hidle, -, hcheck⟩
      rw [run_ask, hcheck metadata rfl]
      exact ⟨hidle, fun _ h => by cases h⟩
  · rintro _ s₁ ⟨hidle, -⟩
    refine wp_seq (fun r s' => Idle session i s' ∧ ∀ error, r = .error error → Vacant session s')
      ?_ ?_ (fun error _ h => ⟨h.1, fun _ _ => h.2 error rfl⟩)
    · refine wp_connect (Idle session i) hidle idle_stable fun s' n hready =>
        ⟨trivial, fun error hfails => ⟨hready.assertion, fun _ _ => hvacant s' hready.inv hfails⟩,
          fun hdir => ⟨hready.assertion, fun _ _ => hmissing s' hready.inv hdir⟩,
          fun m hdir => ⟨fun hl => ⟨hready.assertion, fun _ _ => hvacant s' hready.inv ?_⟩,
            fun _ => ⟨hready.assertion, fun _ h => by cases h⟩⟩⟩
      intro m' hm'
      obtain rfl := Option.some.inj (hdir.symm.trans hm')
      have hbound := hready.guard rfl m hdir
      cases hlistener : (s'.inode m).listener with
      | closed => rfl
      | bound => exact absurd hlistener hbound
      | listening => exact absurd hlistener hl
    · rintro stream s₂ ⟨hidle, -⟩
      refine wp_attempt_bind.mpr (wp_peerUid (Idle session i) hidle idle_stable
        fun s' n hready => ⟨trivial, fun _ hfails => hfails.elim, ?_⟩)
      have hinv : Inv R session s' := hready.inv
      simp only [hinv.uid, ne_eq, not_true_eq_false, if_false]
      exact ⟨hready.assertion, fun _ h => by cases h⟩

theorem wp_connectIsOk (hfits : R.Fits session) (hidle : Idle session i s) :
    (discipline R session A).wp i (R.connectIsOk session).run
      (fun r s' => Idle session i s' ∧ (r = .ok false → Vacant session s')) s := by
  refine wp_attempt_bind.mpr (wp_mono ?_ (wp_connectSession hfits hidle))
  rintro (error | stream) s' ⟨hidle, hvacant⟩
  · exact ⟨hidle, fun _ => hvacant error rfl⟩
  · refine wp_lift_bind.mpr (wp_closeStream (Idle session i) hidle idle_stable
      fun s'' n hready => ⟨trivial, hready.assertion, fun h => ?_⟩)
    simp at h

/-- There is no record. -/
theorem wp_readMetadata (hfits : R.Fits session) (hidle : Idle session i s) :
    (discipline R session A).wp i (R.readMetadata session).run
      (fun r s' => (∀ record, r = .ok record → record = none) ∧ Idle session i s') s := by
  unfold Registry.readMetadata
  rw [Registry.paths_eq hfits, pure_bind]
  refine wp_seq (fun r s' => (∀ record, r = .ok record → record = none) ∧ Idle session i s') ?_ ?_
    (fun _ _ h => ⟨fun _ hr => (by cases hr), h.2⟩)
  · refine wp_attempt_bind.mpr (wp_io_bind.mpr ?_)
    refine wp_lstat (Idle session i) hidle idle_stable fun s' n hready =>
      ⟨trivial, fun error _ => ?_, fun _ => ⟨fun _ hr => (Except.ok.inj hr).symm, hready.assertion⟩,
        fun m hdir => ?_⟩
    · refine wp_ret.mpr ?_
      dsimp only
      split
      · exact ⟨fun _ hr => (Except.ok.inj hr).symm, hready.assertion⟩
      · exact ⟨fun _ hr => (by cases hr), hready.assertion⟩
    · have hinv : Inv R session s' := hready.inv
      simp [hinv.metadata] at hdir
  · rintro record s' ⟨h, hidle⟩
    obtain rfl := h record rfl
    exact ⟨fun _ hr => (Except.ok.inj hr).symm, hidle⟩

theorem wp_pathEntryExists {name : Name} (hidle : Idle session i s) :
    (discipline R session A).wp i (pathEntryExists name).run (fun _ s' => Idle session i s') s := by
  refine wp_attempt_bind.mpr (wp_lstat (Idle session i) hidle idle_stable fun s' n hready =>
    ⟨trivial, fun error _ => ?_, fun _ => hready.assertion, fun _ _ => hready.assertion⟩)
  dsimp only
  split <;> exact hready.assertion

theorem wp_probe (hfits : R.Fits session) (hidle : Idle session i s) :
    (discipline R session A).wp i (do
      if ← R.connectIsOk session then throw sessionExists
      else R.removeStaleLive (sessionPaths session)).run (fun _ s' => Idle session i s') s := by
  refine wp_seq _ (wp_connectIsOk hfits hidle) ?_ (fun _ _ h => h.1)
  rintro (_ | _) s' ⟨hidle, hvacant⟩
  · exact wp_removeStaleLive hidle (hvacant rfl)
  · exact hidle

theorem wp_clearSession (hfits : R.Fits session) (hidle : Idle session i s) :
    (discipline R session A).wp i (R.clearSession session (sessionPaths session)).run
      (fun _ s' => Idle session i s') s := by
  refine wp_seq _ (wp_readMetadata hfits hidle) ?_ (fun _ _ h => h.2)
  rintro record s₁ ⟨h, hidle⟩
  obtain rfl := h record rfl
  refine wp_seq _ (wp_pathEntryExists hidle) ?_ (fun _ _ h => h)
  rintro (_ | _) s₂ hidle
  · refine wp_seq _ (wp_pathEntryExists hidle) ?_ (fun _ _ h => h)
    rintro (_ | _) s₃ hidle
    · exact hidle
    · exact wp_probe hfits hidle
  · exact wp_probe hfits hidle

theorem wp_bindListener (hidle : Idle session i s) :
    (discipline R session A).wp i (Registry.bindListener (sessionPaths session).socket).run
      (fun r s' => ∀ fd, r = .ok fd → Idle session i s' ∧ Bound session i fd .listening s') s := by
  refine wp_seq (fun r s' => ∀ fd, r = .ok fd → Idle session i s' ∧ Bound session i fd .bound s')
    ?_ ?_ (fun _ _ _ _ h => by cases h)
  · refine wp_bindSocket (Idle session i) hidle idle_stable fun s' n hready =>
      ⟨⟨rfl, hready.assertion.1⟩, fun _ _ _ h => (by cases h), fun _ _ _ h => (by cases h),
        fun hnone hinv' fd h => ?_⟩
    cases h
    have hinv : Inv R session s' := hready.inv
    refine ⟨⟨hready.assertion.1, fun n hn => ?_⟩, update_self .., ?_, ?_⟩
    · simp only [Kernel.create, update_of_ne (Ne.symm (paths_ne session).2.1)] at hn
      have hne : n ≠ s'.fresh := Nat.ne_of_lt (hinv.used _ n hn)
      simpa only [Kernel.create, update_of_ne hne] using hready.assertion.2 n hn
    · simp only [Kernel.create, update_self, Kernel.newSocket]
    · simp only [Kernel.create, update_self, Kernel.newSocket]
  · intro fd s₁ h
    obtain ⟨hidle, hbound⟩ := h fd rfl
    refine wp_attempt_bind.mpr (wp_listen (fun s => Idle session i s ∧ Bound session i fd .bound s)
      ⟨hidle, hbound⟩ (idle_stable.and (bound_stable (by simp))) fun s' n hready => ?_)
    obtain ⟨⟨hk, hlockless⟩, hdir, hc, hl⟩ := hready.assertion
    have hinv : Inv R session s' := hready.inv
    refine ⟨⟨hc, hl⟩, fun error _ => ?_, fun _ fd' h => ?_⟩
    · -- A listener that cannot listen is dropped.
      refine wp_lift_bind.mpr (wp_closeListener (fun s => Idle session i s ∧ Created i fd s)
        ⟨⟨hk, hlockless⟩, hinv.used _ fd hdir, hc⟩ (idle_stable.and created_stable)
        fun s'' n hready => ?_)
      exact ⟨⟨hready.assertion.2.2, hready.assertion.1.2⟩, fun _ _ h => by cases h⟩
    obtain rfl := Except.ok.inj h
    refine ⟨⟨hk, fun n hn => ?_⟩, hdir, ?_, ?_⟩
    · have hne := hlockless n hn
      simp only [Kernel.modify, update_apply]
      split
      · rename_i hn
        rwa [hn] at hne
      · exact hne
    · simp only [Kernel.modify, update_self, hc]
    · simp only [Kernel.modify, update_self]

/-- Without the lock the socket is given up: whoever holds a lock serves the socket, which is the
process's own. -/
theorem wp_giveUp {fd : Fd} {error : IoError} (hidle : Idle session i s)
    (hbound : Bound session i fd .listening s) :
    (discipline R session A).wp i (do
      ignore (ask (file (.removeFile .bindSession (sessionPaths session).socket)))
      throw error : Io Fd).run
      (fun r s' => match r with
        | .ok lock => Holds session i ⟨fd, lock, sessionPaths session⟩ s'
        | .error _ => Idle session i s' ∧ Created i fd s') s := by
  refine wp_ignore_bind.mpr (wp_removeFile _ ⟨hidle, hbound⟩
    (idle_stable.and (bound_stable (by simp))) fun s' n hready => ?_)
  obtain ⟨hidle, hbound⟩ := hready.assertion
  have hinv : Inv R session s' := hready.inv
  have hcreated : Created i fd s' := ⟨hinv.used _ fd hbound.1, hbound.2.1⟩
  have hfree : ¬ LockHeld session s' := by
    rintro ⟨k, j, hk, hcj, hrun⟩
    obtain ⟨l, hl, hcl, -⟩ := hinv.held k j hk hcj hrun
    obtain rfl := Option.some.inj (hbound.1.symm.trans hl)
    obtain rfl := Option.some.inj (hbound.2.1.symm.trans hcl)
    exact hidle.2 k hk hcj
  have hown : ∀ m, s'.dir (sessionPaths session).socket = some m →
      (s'.inode m).creator = some i := fun m hm =>
    Option.some.inj (hbound.1.symm.trans hm) ▸ hbound.2.1
  refine ⟨⟨fun _ => ⟨hfree, fun m hm _ => hown m hm⟩,
    fun h => absurd h (paths_ne session).2.1⟩, fun _ _ => ⟨hidle, hcreated⟩,
    fun _ => ⟨hidle, hcreated⟩, fun m _ => ⟨fun _ => ⟨hidle, hcreated⟩,
      fun _ _ => ⟨⟨hidle.1, fun n hn => ?_⟩, hcreated⟩⟩⟩
  simp only [Kernel.unlink, update_of_ne (Ne.symm (paths_ne session).2.1)] at hn
  exact hidle.2 n hn

/-- The steps of `bind_session` after the socket is bound take the lock or give the socket up. -/
theorem wp_takeLock {fd : Fd} (hidle : Idle session i s) (hbound : Bound session i fd .listening s) :
    (discipline R session A).wp i (do
      ask (file (.setPermissions (sessionPaths session).socket 0o600))
      ask (socket (.setNonblocking fd true))
      match ← attempt (ask (file (.createNew (sessionPaths session).lock 0o600))) with
      | .ok lock => return lock
      | .error error =>
        ignore (ask (file (.removeFile .bindSession (sessionPaths session).socket)))
        throw error : Io Fd).run
      (fun r s' => match r with
        | .ok lock => Holds session i ⟨fd, lock, sessionPaths session⟩ s'
        | .error _ => Idle session i s' ∧ Created i fd s') s := by
  have hpair : ∀ {mine}, (discipline R session A).Stable i mine
      fun s => Idle session i s ∧ Bound session i fd .listening s :=
    idle_stable.and (bound_stable (by simp))
  have hcreated : ∀ {s}, Inv R session s → Bound session i fd .listening s → Created i fd s :=
    fun hinv hbound => ⟨hinv.used _ fd hbound.1, hbound.2.1⟩
  refine wp_seq (fun r s' => Idle session i s' ∧ Created i fd s' ∧
    (r = .ok () → Bound session i fd .listening s')) ?_ ?_ (fun _ _ h => ⟨h.1, h.2.1⟩)
  · refine wp_setPermissions _ ⟨hidle, hbound⟩ hpair fun s' n hready => ⟨rfl, ?_, ?_, ?_⟩
    · exact fun _ _ => ⟨hready.assertion.1, hcreated hready.inv hready.assertion.2,
        fun h => by cases h⟩
    · intro hnone
      simp [hready.assertion.2.1] at hnone
    · intro m hm hinv'
      obtain ⟨⟨hk, hlockless⟩, hdir, hc, hl⟩ := hready.assertion
      obtain rfl := Option.some.inj (hdir.symm.trans hm)
      have hbound' : Bound session i fd .listening
          (s'.modify fd fun node => { node with mode := 0o600 }) :=
        ⟨hdir, by simp only [Kernel.modify, update_self, hc],
          by simp only [Kernel.modify, update_self, hl]⟩
      refine ⟨⟨hk, fun n hn => ?_⟩, hcreated hinv' hbound', fun _ => hbound'⟩
      have hne := hlockless n hn
      simp only [Kernel.modify, update_apply]
      split
      · rename_i hn
        rwa [hn] at hne
      · exact hne
  · rintro a s₁ ⟨hidle, -, hbound₁⟩
    refine wp_seq (fun _ s' => Idle session i s' ∧ Created i fd s' ∧
      Bound session i fd .listening s') ?_ ?_ (fun _ _ h => ⟨h.1, h.2.1⟩)
    · exact wp_setNonblocking _ ⟨hidle, hbound₁ rfl⟩ hpair fun s' n hready =>
        ⟨trivial, fun _ _ => ⟨hready.assertion.1, hcreated hready.inv hready.assertion.2,
          hready.assertion.2⟩, fun r _ => ⟨hready.assertion.1,
            hcreated hready.inv hready.assertion.2, hready.assertion.2⟩⟩
    · rintro - s₂ ⟨hidle, -, hbound⟩
      refine wp_attempt_bind.mpr (wp_createNew _ ⟨hidle, hbound⟩ hpair fun s' n hready => ?_)
      obtain ⟨hidle, hdir, hc, hl⟩ := hready.assertion
      have hinv : Inv R session s' := hready.inv
      refine ⟨⟨rfl, fd, hdir, hc, hl⟩, fun error _ => wp_giveUp hidle ⟨hdir, hc, hl⟩,
        fun m hm => wp_giveUp hidle ⟨hdir, hc, hl⟩, fun hnone hinv' => ?_⟩
      -- The lock is new: the session is taken.
      have hne : fd ≠ s'.fresh := Nat.ne_of_lt (hinv.used _ fd hdir)
      refine ⟨hidle.1, ⟨?_, ?_, ?_⟩, update_self .., ?_⟩
      · simpa only [Kernel.create, update_of_ne (paths_ne session).2.1] using hdir
      · simpa only [Kernel.create, update_of_ne hne] using hc
      · simpa only [Kernel.create, update_of_ne hne] using hl
      · simp only [Kernel.create, update_self, Kernel.newFile]

theorem wp_lockSession {fd : Fd} (hidle : Idle session i s)
    (hbound : Bound session i fd .listening s) :
    (discipline R session A).wp i (Registry.lockSession (sessionPaths session) fd).run
      (Taken session i) s := by
  refine wp_attempt_bind.mpr (wp_mono ?_ (wp_takeLock hidle hbound))
  rintro (error | lock) s' h
  · refine wp_lift_bind.mpr (wp_closeListener (fun s => Idle session i s ∧ Created i fd s) h
      (idle_stable.and created_stable) fun s'' n hready => ?_)
    exact ⟨⟨hready.assertion.2.2, hready.assertion.1.2⟩, fun _ _ h => by cases h⟩
  · rintro files hfiles
    cases hfiles
    exact h

/-- A process that takes the session holds its files from then on. -/
theorem wp_bindSession (hidle : Idle session i s) :
    (discipline R session A).wp i (R.bindSession session).run (Taken session i) s := by
  unfold Registry.bindSession
  by_cases hfits : R.Fits session
  · rw [Registry.paths_eq hfits, pure_bind]
    refine wp_seq _ (wp_clearSession hfits hidle) ?_ (fun _ _ _ _ h => by cases h)
    rintro - s₁ hidle
    refine wp_attempt_bind.mpr (wp_mono ?_ (wp_bindListener hidle))
    rintro (error | fd) s' h
    · dsimp only
      split <;> exact fun _ h => by cases h
    · exact wp_lockSession (h fd rfl).1 (h fd rfl).2
  · rw [Registry.paths_error hfits]
    exact fun _ h => by cases h

end specs

/-! ## Exclusion -/

/-- A state that an earlier crashed runner leaves: no record, and perhaps a socket nobody listens
on and a lock nobody holds. -/
structure Leftover (s : Kernel) : Prop where
  uid : s.uid = R.uid
  umask : ∀ i, s.umask i = 0o077
  running : ∀ i, s.killed i = false
  used : ∀ name n, s.dir name = some n → n < s.fresh
  metadata : s.dir (sessionPaths session).metadata = none
  socket : ∀ n, s.dir (sessionPaths session).socket = some n → (s.inode n).kind = .socket ∧
    (s.inode n).uid = s.uid ∧ ((s.inode n).mode = 0o600 ∨ (s.inode n).mode = 0o700) ∧
    (s.inode n).listener = .closed
  lock : ∀ n, s.dir (sessionPaths session).lock = some n → (s.inode n).creator = none

theorem Leftover.inv {s : Kernel} (h : Leftover R session s) : Inv R session s where
  uid := h.uid
  umask := h.umask
  used := h.used
  metadata := h.metadata
  socket n hn := ⟨(h.socket n hn).1, (h.socket n hn).2.1, (h.socket n hn).2.2.1⟩
  running n hn hopen := absurd (h.socket n hn).2.2.2 hopen
  held n j hn hj := by simp [h.lock n hn] at hj

/-- Every process runs `bind_session` for the ID. -/
def takers (s : Kernel) :
    Config Proc Call Call.Answer (fun _ => Except IoError SessionFiles) Kernel :=
  ⟨s, fun _ => (R.bindSession session).run⟩

/-- The entry is a socket that process `j` has open, or a lock that it created, and `j` runs. -/
def Belongs (j : Proc) (name : Name) (s : Kernel) : Prop :=
  ∃ n, s.dir name = some n ∧ (s.inode n).creator = some j ∧ s.killed j = false ∧
    (name = (sessionPaths session).socket → (s.inode n).listener ≠ .closed)

/-- At most one process holds the session's files, and nobody is about to remove the socket or the
lock of another process that runs. -/
def Exclusive
    (c : Config Proc Call Call.Answer (fun _ => Except IoError SessionFiles) Kernel) : Prop :=
  (∀ i j files files', c.pool i = .ret (.ok files) → c.pool j = .ret (.ok files') → i = j) ∧
    ∀ i j site name, name = (sessionPaths session).socket ∨ name = (sessionPaths session).lock →
      c.nexts i = some (.file (.removeFile site name)) → Belongs session j name c.state → j = i

/-- **Undisturbed processes exclude each other**, from every leftover state, whatever calls fail
that are not those of a probe whose socket is open. -/
theorem exclusive_of_undisturbed {s : Kernel}
    {c : Config Proc Call Call.Answer (fun _ => Except IoError SessionFiles) Kernel}
    (hleft : Leftover R session s)
    (hrun : Reaches (Kernel.machine Outside.any (failures session)) (Undisturbed session)
      (takers R session s) c) :
    Exclusive session c := by
  have hidle : ∀ i, Idle session i s := fun i =>
    ⟨hleft.running i, fun n hn => by simp [hleft.lock n hn]⟩
  obtain ⟨hinv, hpool⟩ := sound (D := discipline R session Outside.any)
    (c := takers R session s) (Q := Taken session) (fun _ _ => taken_stable) hleft.inv
    (fun i => wp_bindSession (hidle i)) hrun
  refine ⟨?_, ?_⟩
  · intro i j files files' hi hj
    have hholds := hpool i
    have hholds' := hpool j
    rw [hi, wp_ret] at hholds
    rw [hj, wp_ret] at hholds'
    obtain ⟨-, ⟨hdir, hc, -⟩, -⟩ := hholds files rfl
    obtain ⟨-, ⟨hdir', hc', -⟩, -⟩ := hholds' files' rfl
    obtain hfd := Option.some.inj (hdir.symm.trans hdir')
    rw [← hfd] at hc'
    exact Option.some.inj (hc.symm.trans hc')
  · rintro i j site name hname hnext ⟨n, hn, hc, hk, hopen⟩
    obtain ⟨hsocket, hlock⟩ := guar_of_wp hinv hpool hnext trivial
    rcases hname with rfl | rfl
    · have hi := (hsocket rfl).2 n hn (hopen rfl)
      exact Option.some.inj (hc.symm.trans hi)
    · exact absurd ⟨n, j, hn, hc, hk⟩ (hlock rfl)

/-! ## Two holders -/

/-- A session ID. -/
def exampleSession : SessionId := ⟨List.replicate 16 0, rfl⟩

/-- A user's registry. -/
def exampleRegistry : Registry := ⟨ascii "/home/user/.afk/run", 1000, jsonSerde⟩

/-- An earlier runner was killed after it narrowed its socket and before it created its lock. -/
def staleSocket : Kernel :=
  { Kernel.boot 1000 0o077 0 with
    dir := update (fun _ => none) (sessionPaths exampleSession).socket (some 0)
    inode := fun _ => ⟨.socket, 1000, 0o600, [], none, .closed⟩
    fresh := 1 }

theorem staleSocket_leftover : Leftover exampleRegistry exampleSession staleSocket where
  uid := rfl
  umask _ := rfl
  running _ := rfl
  used name n hn := by
    simp only [staleSocket, update_apply] at hn
    split at hn <;> simp_all [staleSocket]
  metadata := by
    simp only [staleSocket, update_of_ne (Ne.symm (paths_ne exampleSession).1)]
  socket _ _ := ⟨rfl, rfl, .inl rfl, rfl⟩
  lock _ _ := rfl

/-- The second process probes the stale socket; the first takes the session; then the second
removes what it found stale. -/
def race : List Kernel.Move := [.run (.runner 1) 5, .run (.runner 0) 14, .run (.runner 1) 10]

def holding (p : Prog (Except IoError SessionFiles)) : Bool :=
  match p with
  | .ret (.ok _) => true
  | _ => false

theorem holding_iff {p : Prog (Except IoError SessionFiles)} (h : holding p = true) :
    ∃ files, p = .ret (.ok files) := by
  unfold holding at h
  split at h
  · exact ⟨_, rfl⟩
  · cases h

/-- The call looks at the entry, or removes it, in `remove_stale_live`. -/
def removing (name : Name) : Option Call → Bool
  | some (.file (.lstat .removeStaleLive other)) => other == name
  | some (.file (.removeFile .removeStaleLive other)) => other == name
  | _ => false

theorem removing_of_removing {name : Name} {op : Option Call} (h : Removing name op) :
    removing name op = true := by
  rcases h with rfl | rfl
  · exact beq_self_eq_true name
  · exact beq_self_eq_true name

/-- The guard, for two processes. -/
def lawful (i : Proc) (op : Call) (s : Kernel) (next : Proc → Option Call) : Bool :=
  match op with
  | .socket (.bind name) | .file (.createNew name _) =>
    [Proc.runner 0, Proc.runner 1].all fun j => j == i || !removing name (next j)
  | .socket (.connect name) =>
    match s.dir name with
    | some n => (s.inode n).listener != .bound
    | none => true
  | _ => true

theorem undisturbed_of_lawful {i : Proc} {op : Call} {s : Kernel} {next : Proc → Option Call}
    (hothers : ∀ name j, j ≠ .runner 0 → j ≠ .runner 1 → ¬ Removing name (next j))
    (h : lawful i op s next = true) : Undisturbed exampleSession i op s next := by
  have hnobody : ∀ name, ([Proc.runner 0, Proc.runner 1].all fun j =>
      j == i || !removing name (next j)) = true → ∀ j, j ≠ i → ¬ Removing name (next j) := by
    intro name hall j hj hremoving
    by_cases hmoves : j ∈ [Proc.runner 0, Proc.runner 1]
    · have hlawful := List.all_eq_true.mp hall j hmoves
      rw [removing_of_removing hremoving] at hlawful
      simp [hj] at hlawful
    · simp only [List.mem_cons, List.not_mem_nil, or_false, not_or] at hmoves
      exact hothers name j hmoves.1 hmoves.2 hremoving
  unfold Undisturbed
  split
  · exact fun _ => hnobody _ h
  · exact fun _ => hnobody _ h
  · rintro - m hm
    simpa [lawful, hm] using h
  · trivial

/-- Runs of two processes that the guard allows. -/
theorem reaches_lawful {failing : (call : Call) → call.Answer} {F : Failures}
    {moves : List Kernel.Move}
    {c : Config Proc Call Call.Answer (fun _ => Except IoError SessionFiles) Kernel}
    (hF : ∀ i, .fail i ∈ moves → ∀ op s error, op.error? (failing op) = some error → F op s error)
    (hmoves : ∀ move ∈ moves, move.proc = .runner 0 ∨ move.proc = .runner 1)
    (h : Kernel.play Kernel.quietAnswer failing lawful moves
      (takers exampleRegistry exampleSession staleSocket) = some c) :
    Reaches (Kernel.machine Outside.any F) (Undisturbed exampleSession)
      (takers exampleRegistry exampleSession staleSocket) c := by
  refine Kernel.play_reaches (fun _ => trivial) hF (fun i op s next hnext hlawful => ?_) h
  refine undisturbed_of_lawful (fun name j h₀ h₁ hremoving => ?_) hlawful
  rw [hnext j fun move hmove => by
    rcases hmoves move hmove with hproc | hproc <;> rw [hproc]
    · exact Ne.symm h₀
    · exact Ne.symm h₁] at hremoving
  rcases hremoving with h | h <;> cases h

/-- No descriptor is left for a probe. -/
def starved : (call : Call) → call.Answer
  | .socket (.connect _) => .error (IoError.os .other 24)
  | call => Kernel.quietAnswer call

/-- One process has probed the stale socket when the other begins; it takes the session while the
other probes it. -/
def turns : List Kernel.Move :=
  [.run (.runner 0) 4, .run (.runner 1) 1, .run (.runner 0) 7, .run (.runner 1) 3,
    .run (.runner 0) 3, .run (.runner 1) 2]

/-- One process takes the session; the probe of the other fails. -/
def blindProbe : List Kernel.Move :=
  [.run (.runner 0) 14, .run (.runner 1) 3, .fail (.runner 1), .run (.runner 1) 11]

/-- The process found that the session exists. -/
def refused (p : Prog (Except IoError SessionFiles)) : Bool :=
  match p with
  | .ret (.error error) => error == sessionExists
  | _ => false

theorem refused_iff {p : Prog (Except IoError SessionFiles)} (h : refused p = true) :
    p = .ret (.error sessionExists) := by
  unfold refused at h
  split at h
  · rw [eq_of_beq h]
  · cases h

theorem turns_end : (Kernel.play Kernel.quietAnswer Kernel.quietAnswer lawful turns
    (takers exampleRegistry exampleSession staleSocket)).any
      (fun c => holding (c.pool (.runner 0)) && refused (c.pool (.runner 1))) = true := by
  decide +kernel

theorem race_ends : (Kernel.play Kernel.quietAnswer Kernel.quietAnswer (fun _ _ _ _ => true) race
    (takers exampleRegistry exampleSession staleSocket)).any
      (fun c => holding (c.pool (.runner 0)) && holding (c.pool (.runner 1))) = true := by
  decide +kernel

theorem blindProbe_ends : (Kernel.play Kernel.quietAnswer starved lawful blindProbe
    (takers exampleRegistry exampleSession staleSocket)).any
      (fun c => holding (c.pool (.runner 0)) && holding (c.pool (.runner 1))) = true := by
  decide +kernel

/-- Two processes with the files do not exclude each other. -/
theorem not_exclusive
    {c : Config Proc Call Call.Answer (fun _ => Except IoError SessionFiles) Kernel}
    (h : (holding (c.pool (.runner 0)) && holding (c.pool (.runner 1))) = true) :
    ¬ Exclusive exampleSession c := by
  obtain ⟨hfirst, hsecond⟩ := Bool.and_eq_true_iff.mp h
  obtain ⟨files, hfiles⟩ := holding_iff hfirst
  obtain ⟨files', hfiles'⟩ := holding_iff hsecond
  intro hexclusive
  cases hexclusive.1 _ _ files files' hfiles hfiles'

/-- Two processes take turns: one takes the session of the crashed runner, and the other finds that
it exists. -/
theorem exclusive_turns : ∃ c files, c.pool (.runner 0) = .ret (.ok files) ∧
    c.pool (.runner 1) = .ret (.error sessionExists) ∧
      Reaches (Kernel.machine Outside.any (failures exampleSession)) (Undisturbed exampleSession)
        (takers exampleRegistry exampleSession staleSocket) c ∧ Exclusive exampleSession c := by
  obtain ⟨c, hplay, hc⟩ := (Option.any_eq_true _ _).mp turns_end
  obtain ⟨hholding, hrefused⟩ := Bool.and_eq_true_iff.mp hc
  obtain ⟨files, hfiles⟩ := holding_iff hholding
  have hrun := reaches_lawful (F := failures exampleSession) (by simp [turns]) (by decide) hplay
  exact ⟨c, files, hfiles, refused_iff hrefused, hrun,
    exclusive_of_undisturbed exampleRegistry exampleSession staleSocket_leftover hrun⟩

/-- Two processes can hold the files of one session: when one takes it while the other is between
its failed probe and its removal of what it found stale, with no call that fails; and with nobody
disturbed, when the probe of a process that has no descriptor left fails. -/
theorem two_holders : Leftover exampleRegistry exampleSession staleSocket ∧
    (∃ c, Reaches (Kernel.machine Outside.any .none) Guard.any
      (takers exampleRegistry exampleSession staleSocket) c ∧ ¬ Exclusive exampleSession c) ∧
    ∃ c, Reaches (Kernel.machine Outside.any .any) (Undisturbed exampleSession)
      (takers exampleRegistry exampleSession staleSocket) c ∧ ¬ Exclusive exampleSession c := by
  refine ⟨staleSocket_leftover, ?_, ?_⟩
  · obtain ⟨c, hplay, hc⟩ := (Option.any_eq_true _ _).mp race_ends
    exact ⟨c, Kernel.play_reaches (fun _ => trivial) (by simp [race])
      (fun _ _ _ _ _ _ => trivial) hplay, not_exclusive hc⟩
  · obtain ⟨c, hplay, hc⟩ := (Option.any_eq_true _ _).mp blindProbe_ends
    exact ⟨c, reaches_lawful (fun _ _ _ _ _ _ => trivial) (by decide) hplay, not_exclusive hc⟩

end Exclusion

end AfkCli
