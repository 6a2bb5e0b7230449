import AfkCli.Cleaning
import AfkCli.Runner

/-!
# Taking a session alone

`Registry::bind_session` by a process that runs alone, whatever calls fail: the files it leaves when
it takes the ID, and what was there when it finds that something exists.

## Main definitions

* `takeSession`, `startTaken`: a start up to the taking of its session, and after it
* `Reachable`, `Held`: a session's ID is in use
* `Stale`, `Overdue`: an expired record stands next to a socket or a lock
* `Takes`: the files of a session that was taken

## Main results

* `wp_clearSession`, `wp_bindListener`, `wp_lockSession`: the steps
* `wp_bindSession`, `wp_takeSession`: a session is taken, and what is said to exist exists
* `startRunner_eq`: the two halves of a start
-/

namespace AfkCli

open Interaction Discipline Function

/-! ## The two halves of a start -/

/-- The start up to the session's taking. -/
def takeSession (serde : Serde) (self : Self) (session : SessionId) : Io (Registry × SessionFiles) := do
  ask (process .setsid)
  process (.umask 0o077)
  let registry ← openRegistry serde self
  let files ← registry.bindSession session
  return (registry, files)

/-- The start after it: an error before the loop drops the files. -/
def startTaken (self : Self) (session : SessionId) (config : StartupConfig)
    (taken : Registry × SessionFiles) : Io Unit := do
  match ← attempt (prepareRunner self taken.1 session taken.2 config) with
  | .error error =>
    taken.2.drop
    throw error
  | .ok (ctx, trace) => ctx.serve trace

theorem startRunner_eq (serde : Serde) (self : Self) (session : SessionId) (config : StartupConfig) :
    startRunner serde self session config =
      takeSession serde self session >>= startTaken self session config := by
  unfold startRunner takeSession
  refine Eq.trans ?_ (bind_assoc _ _ _).symm
  congr 1
  funext _
  refine Eq.trans ?_ (bind_assoc _ _ _).symm
  congr 1
  funext _
  refine Eq.trans ?_ (bind_assoc _ _ _).symm
  congr 1
  funext registry
  refine Eq.trans ?_ (bind_assoc _ _ _).symm
  congr 1

/-! ## Sessions in use -/

def SessionMetadata.isCompleted : SessionMetadata → Bool
  | .completed .. => true
  | .live .. => false

/-- The clock said `now` while the session was taken. -/
def BoundAt (now : UInt64) (log : RunnerLog) : Prop :=
  ⟨Call.process (.now .bindSession), .ok now⟩ ∈ log

/-- Somebody listens at the session's socket. -/
def Reachable (session : SessionId) (s : Kernel) : Prop :=
  ∃ n, s.dir (sessionPaths session).socket = some n ∧ (s.inode n).listener = .listening

/-- The session has a completed record that has not expired, or a runner that can be reached. -/
def Held (R : Registry) (session : SessionId) (s : Kernel) (log : RunnerLog) : Prop :=
  (∃ metadata now, HasRecord R s session metadata ∧ metadata.isCompleted = true ∧
    BoundAt now log ∧ metadata.isExpired now = false) ∨ Reachable session s

/-- The session has an expired record, next to a socket or a lock. -/
def Stale (R : Registry) (session : SessionId) (s : Kernel) (log : RunnerLog) : Prop :=
  (∃ metadata now, HasRecord R s session metadata ∧ BoundAt now log ∧
    metadata.isExpired now = true) ∧
  ((s.dir (sessionPaths session).socket).isSome ∨ (s.dir (sessionPaths session).lock).isSome)

/-- The stale record was not removed when the registry was opened: it was not among the first entries
of the listing, or it had not expired yet. -/
structure Overdue (R : Registry) (session : SessionId) (s : Kernel) (log : RunnerLog) : Prop where
  stale : Stale R session s log
  unswept : ∃ now names, Opened now names log ∧ ∀ metadata, HasRecord R s session metadata →
    metadata.isExpired now = true →
      (sessionPaths session).metadata ∉ names.take maxSessionListEntries

theorem Held.mono {R : Registry} {session : SessionId} {s : Kernel} {log log' : RunnerLog}
    (h : Held R session s log) (hlog : log <:+ log') : Held R session s log' := by
  refine h.imp_left ?_
  rintro ⟨metadata, now, hrecord, hcompleted, hnow, hexpired⟩
  exact ⟨metadata, now, hrecord, hcompleted, hlog.subset hnow, hexpired⟩

/-- The system says that an address is in use only when it is. -/
structure Faults.Plain (F : Faults) : Prop where
  honest : F.Honest
  address : ∀ op error, F op error → error.kind ≠ .addrInUse

theorem Faults.plain_none : Faults.none.Plain := ⟨honest_none, fun _ _ h => h.elim⟩

namespace Alone

variable {i : Proc} {s₀ : Kernel} {F : Faults} {Good : RunnerLog → Prop} {log : RunnerLog}
  {R : Registry} {session : SessionId}

/-! ## Clearing what is left -/

theorem wp_pathEntryExists (hgood : Unobserved Good) (hF : F.Honest) {name : Name} :
    (solo i s₀ F Good).wp () (pathEntryExists name).run
      (fun r log' => after i s₀ log' = after i s₀ log ∧
        (∀ found, r = .ok found → (found = true ↔ ((after i s₀ log).dir name).isSome)) ∧
        ∀ error, r = .error error → error.kind ≠ .alreadyExists) log := by
  refine wp_attempt_bind.mpr (wp_alone hgood (by rintro _ ⟨⟩) fun r hr => ?_)
  have hcreates := hr.creates
  obtain ⟨hsame, ⟨error, rfl, hfault⟩ | ⟨hnone, rfl⟩ | ⟨n, hsome, rfl⟩⟩ := hr.lstat
  · dsimp only
    split_ifs with hmissing
    · exact absurd hmissing (hF _ _ hfault).1
    · refine wp_ret.mpr ⟨hsame, by rintro _ ⟨⟩, ?_⟩
      rintro _ ⟨⟩
      exact fun h => hcreates error rfl h
  · refine wp_ret.mpr ⟨hsame, ?_, by rintro _ ⟨⟩⟩
    rintro _ ⟨⟩
    rw [hnone]
    exact Bool.eq_iff_iff.mp rfl
  · refine wp_ret.mpr ⟨hsame, ?_, by rintro _ ⟨⟩⟩
    rintro _ ⟨⟩
    rw [hsome]
    exact Bool.eq_iff_iff.mp rfl

theorem wp_connectIsOk (hgood : Unobserved Good) (hF : F.Honest) :
    (solo i s₀ F Good).wp () (R.connectIsOk session).run
      (fun r log' => Pruned (fun _ => False) (after i s₀ log) (after i s₀ log') ∧
        ∃ found, r = .ok found ∧ (found = true → Reachable session (after i s₀ log))) log := by
  refine wp_attempt_bind.mpr (wp_mono ?_ (wp_connect hgood hF))
  rintro (error | stream) log₁ h
  · exact wp_ret.mpr ⟨h.pruned, false, rfl, nofun⟩
  · refine wp_lift_bind.mpr (wp_alone hgood (by rintro _ ⟨⟩) fun r hr => wp_ret.mpr ?_)
    refine ⟨h.pruned.trans (Pruned.next (i := i) r rfl), true, rfl, fun _ => ?_⟩
    exact h.listening stream rfl

/-- What is left of a session whose runner is gone is removed. -/
theorem wp_probe (hgood : Unobserved Good) (hF : F.Honest) :
    (solo i s₀ F Good).wp () (ExceptT.run (do
        if ← R.connectIsOk session then throw sessionExists
        else R.removeStaleLive (sessionPaths session) : Io Unit))
      (fun r log' => Pruned (LiveFiles session) (after i s₀ log) (after i s₀ log') ∧
        (r = .ok () → ∀ name, LiveFiles session name → (after i s₀ log').dir name = none) ∧
        ∀ error, r = .error error → error.kind = .alreadyExists →
          Reachable session (after i s₀ log)) log := by
  refine wp_io_bind.mpr (wp_mono ?_ (wp_connectIsOk hgood hF))
  rintro r log₁ ⟨hpruned, found, rfl, hfound⟩
  have hbefore : Pruned (LiveFiles session) (after i s₀ log) (after i s₀ log₁) :=
    hpruned.mono fun _ => False.elim
  cases found with
  | true =>
    refine wp_ret.mpr ⟨hbefore, by rintro ⟨⟩, ?_⟩
    rintro _ ⟨⟩ -
    exact hfound rfl
  | false =>
    refine wp_mono (fun r log' h => ⟨hbefore.trans h.pruned, h.gone, ?_⟩)
      (wp_removeStaleLive hgood hF)
    exact fun error hr hkind => absurd hkind (h.plain error hr)

/-- What the record check leaves of a session: its ID is free, or it is in use. -/
structure Clears (R : Registry) (session : SessionId) (s s' : Kernel) (log' : RunnerLog)
    (r : Except IoError Unit) : Prop where
  pruned : Pruned (fun _ => True) s s'
  record : r = .ok () → s'.dir (sessionPaths session).metadata = none
  trace : r = .ok () → s'.dir (sessionPaths session).trace = none ∨
    s.dir (sessionPaths session).metadata = none ∧ s.dir (sessionPaths session).socket = none ∧
      s.dir (sessionPaths session).lock = none
  live : r = .ok () →
    (s'.dir (sessionPaths session).socket = none ∧ s'.dir (sessionPaths session).lock = none) ∨
      ∃ metadata now, HasRecord R s session metadata ∧ BoundAt now log' ∧
        metadata.isExpired now = true
  held : ∀ error, r = .error error → error.kind = .alreadyExists → Held R session s log'

theorem Clears.failed {s s' : Kernel} {log' : RunnerLog} {error : IoError}
    (hpruned : Pruned (fun _ => True) s s') (h : error.kind = .alreadyExists → Held R session s log') :
    Clears R session s s' log' (.error error) := by
  refine ⟨hpruned, by rintro ⟨⟩, by rintro ⟨⟩, by rintro ⟨⟩, ?_⟩
  rintro _ ⟨⟩
  exact h

/-- After the probe nothing of the session is left, or its runner was reached. -/
theorem Clears.of_probe {s s' : Kernel} {log' : RunnerLog} {r : Except IoError Unit}
    (hpruned : Pruned (fun _ => True) s s')
    (hgone : r = .ok () → ∀ name, LiveFiles session name → s'.dir name = none)
    (hreached : ∀ error, r = .error error → error.kind = .alreadyExists → Reachable session s) :
    Clears R session s s' log' r where
  pruned := hpruned
  record hr := hgone hr _ (.inr (.inr (.inr rfl)))
  trace hr := .inl (hgone hr _ (.inr (.inr (.inl rfl))))
  live hr := .inl ⟨hgone hr _ (.inl rfl), hgone hr _ (.inr (.inl rfl))⟩
  held error hr hkind := .inr (hreached error hr hkind)

theorem wp_clearSession (hgood : Unobserved Good) (hF : F.Honest) :
    (solo i s₀ F Good).wp () (R.clearSession session (sessionPaths session)).run
      (fun r log' => Clears R session (after i s₀ log) (after i s₀ log') log' r) log := by
  have hprobe : ∀ log₁, after i s₀ log₁ = after i s₀ log → (solo i s₀ F Good).wp ()
      (ExceptT.run (do
        if ← R.connectIsOk session then throw sessionExists
        else R.removeStaleLive (sessionPaths session) : Io Unit))
      (fun r log' => Clears R session (after i s₀ log) (after i s₀ log') log' r) log₁ := by
    intro log₁ hsame
    refine wp_mono ?_ (wp_probe hgood hF)
    rintro r log' ⟨hpruned, hgone, hreached⟩
    rw [hsame] at hpruned hreached
    exact .of_probe (hpruned.mono fun _ _ => trivial) hgone hreached
  refine wp_io_bind.mpr (wp_mono ?_ (wp_readMetadata hgood hF))
  rintro (error | _ | metadata) log₁ ⟨hsame, hreads⟩
  · exact wp_ret.mpr (.failed (.of_eq hsame) fun hkind => absurd hkind (hreads.plain error rfl))
  · -- There is no record: a socket or a lock may be left.
    refine wp_seq _ (wp_pathEntryExists hgood hF) (fun found log₂ h₂ => ?_) fun error log₂ h₂ => ?_
    · cases found with
      | true => exact hprobe log₂ (h₂.1.trans hsame)
      | false =>
        refine wp_seq _ (wp_pathEntryExists hgood hF) (fun found' log₃ h₃ => ?_)
          fun error log₃ h₃ => ?_
        · have hsame₃ := (h₃.1.trans h₂.1).trans hsame
          cases found' with
          | true => exact hprobe log₃ hsame₃
          | false =>
            have hsocket := Option.not_isSome_iff_eq_none.mp
              (mt ((h₂.2.1 _ rfl).mpr) Bool.false_ne_true)
            have hlock := Option.not_isSome_iff_eq_none.mp
              (mt ((h₃.2.1 _ rfl).mpr) Bool.false_ne_true)
            rw [hsame] at hsocket
            rw [h₂.1, hsame] at hlock
            have hrecord := hreads.absent rfl
            refine wp_ret.mpr ⟨.of_eq hsame₃, fun _ => ?_, fun _ => ?_, fun _ => ?_, by rintro _ ⟨⟩⟩
            · rw [hsame₃]
              exact hrecord
            · exact .inr ⟨hrecord, hsocket, hlock⟩
            · rw [hsame₃]
              exact .inl ⟨hsocket, hlock⟩
        · exact .failed (.of_eq ((h₃.1.trans h₂.1).trans hsame))
            fun hkind => absurd hkind (h₃.2.2 error rfl)
    · exact .failed (.of_eq (h₂.1.trans hsame)) fun hkind => absurd hkind (h₂.2.2 error rfl)
  · -- There is a record: the clock decides whether it has expired.
    have hrecord := hreads.found metadata rfl
    refine wp_io_bind.mpr (wp_alone hgood (by rintro _ ⟨⟩) fun r hr => ?_)
    have hcreates := hr.creates
    obtain ⟨error, rfl, hnext, -⟩ | ⟨now, hle, rfl, hnext⟩ := hr.now
    · have hsame₂ : after i s₀ (⟨.process (.now .bindSession), .error error⟩ :: log₁) =
          after i s₀ log₁ := hnext
      refine wp_ret.mpr (.failed (.of_eq (hsame₂.trans hsame)) fun hkind => ?_)
      exact (hcreates error rfl hkind).elim
    have hclock : Pruned (fun _ => False) (after i s₀ log)
        (after i s₀ (⟨.process (.now .bindSession), .ok now⟩ :: log₁)) := by
      have hnext' : after i s₀ (⟨.process (.now .bindSession), .ok now⟩ :: log₁) =
          { after i s₀ log₁ with clock := now } := hnext
      rw [hnext', ← hsame]
      exact ⟨fun _ => .inl rfl, rfl, rfl, rfl, Nat.le_refl _, hle⟩
    have hnow : BoundAt now (⟨.process (.now .bindSession), .ok now⟩ :: log₁) := List.mem_cons_self
    dsimp only [onOk_ok]
    split_ifs with hexpired
    · refine wp_mono ?_ (wp_extends (wp_removeCompleted hgood hF))
      rintro r log' ⟨hremoved, hextends⟩
      refine ⟨(hclock.mono fun _ => False.elim).trans (hremoved.pruned.mono fun _ _ => trivial),
        fun hr => ?_, fun hr => ?_, fun _ => ?_, fun error hr hkind => ?_⟩
      · exact hremoved.gone hr _ (.inr (.inr rfl))
      · exact .inl (hremoved.gone hr _ (.inr (.inl rfl)))
      · exact .inr ⟨metadata, now, hrecord, hextends.subset hnow, hexpired⟩
      · exact absurd hkind (hremoved.plain error hr)
    · cases metadata with
      | completed =>
        refine wp_ret.mpr (.failed (hclock.mono fun _ => False.elim) fun _ => .inl ?_)
        exact ⟨_, now, hrecord, rfl, hnow, Bool.not_eq_true _ ▸ hexpired⟩
      | live =>
        refine wp_mono ?_ (wp_probe hgood hF)
        rintro r log' ⟨hpruned, hgone, hreached⟩
        refine .of_probe ((hclock.mono fun _ => False.elim).trans
          (hpruned.mono fun _ _ => trivial)) hgone fun error hr hkind => ?_
        obtain ⟨n, hn, hlistening⟩ := hreached error hr hkind
        rw [hclock.keeps not_false] at hn
        rw [hclock.inode] at hlistening
        exact ⟨n, hn, hlistening⟩

/-! ## Binding and locking -/

/-- What `UnixListener::bind` leaves: a listener at a new entry, or an error. -/
structure Listens (F : Faults) (name : Name) (s s' : Kernel) (r : Except IoError Fd) : Prop where
  listening : ∀ fd, r = .ok fd → s.dir name = none ∧ fd = s.fresh ∧
    s'.dir = update s.dir name (some s.fresh) ∧ s.fresh < s'.fresh
  failed : ∀ error, r = .error error → error.kind ≠ .alreadyExists ∧
    (F.Plain → error.kind = .addrInUse → (s.dir name).isSome)

theorem wp_bindListener (hgood : Unobserved Good) {name : Name} :
    (solo i s₀ F Good).wp () (Registry.bindListener name).run
      (fun r log' => Listens F name (after i s₀ log) (after i s₀ log') r) log := by
  have hfailed : ∀ {s s' : Kernel} {error : IoError}, error.kind ≠ .alreadyExists →
      (F.Plain → error.kind = .addrInUse → (s.dir name).isSome) →
        Listens F name s s' (.error error) := by
    intro s s' error hplain haddress
    refine ⟨by rintro _ ⟨⟩, ?_⟩
    rintro _ ⟨⟩
    exact ⟨hplain, haddress⟩
  refine wp_io_bind.mpr (wp_alone hgood (by rintro _ ⟨⟩) fun r hr => ?_)
  have hcreates := hr.creates
  obtain ⟨error, rfl, -, hcause⟩ | ⟨hnone, rfl, hnext⟩ := hr.bind
  · refine wp_ret.mpr (hfailed (fun h => hcreates error rfl h) fun hF hkind => ?_)
    exact hcause.elim (fun hfault => absurd hkind (hF.address _ _ hfault)) fun h => h.2
  have hnext' : after i s₀ (⟨.socket (.bind name), .ok (after i s₀ log).fresh⟩ :: log) =
      (after i s₀ log).create name ((after i s₀ log).newSocket i) := hnext
  refine wp_attempt_bind.mpr (wp_alone hgood (by rintro _ ⟨⟩) fun r' hr' => ?_)
  have hcreates' := hr'.creates
  have hdir : (after i s₀ (⟨.socket (.listen (after i s₀ log).fresh), r'⟩ ::
      ⟨.socket (.bind name), .ok (after i s₀ log).fresh⟩ :: log)).dir =
        update (after i s₀ log).dir name (some (after i s₀ log).fresh) ∧
      (after i s₀ log).fresh < (after i s₀ (⟨.socket (.listen (after i s₀ log).fresh), r'⟩ ::
        ⟨.socket (.bind name), .ok (after i s₀ log).fresh⟩ :: log)).fresh := by
    show (Kernel.next i _ _ _).dir = _ ∧ _ < (Kernel.next i _ _ _).fresh
    have heffect := Kernel.next_effect i (after i s₀
      (⟨.socket (.bind name), .ok (after i s₀ log).fresh⟩ :: log))
        (.socket (.listen (after i s₀ log).fresh)) r'
    rw [hnext'] at heffect ⊢
    generalize Kernel.next i _ _ _ = s' at heffect ⊢
    cases heffect with
    | quiet hsame => exact ⟨hsame.dir, Nat.lt_of_lt_of_le (Nat.lt_succ_self _) hsame.fresh_le⟩
    | listen => exact ⟨rfl, Nat.lt_succ_self _⟩
  obtain error | _ := r'
  · -- A listener that cannot listen is dropped.
    refine wp_lift_bind.mpr (wp_alone hgood (by rintro _ ⟨⟩) fun r'' hr'' => wp_ret.mpr ?_)
    refine hfailed (fun h => hcreates' error rfl h) fun hF hkind => ?_
    obtain ⟨_, ⟨⟩, hfault, -⟩ | hstep := hr'.socket
    · exact absurd hkind (hF.address _ _ hfault)
    · cases congrArg Prod.fst hstep
  · refine wp_ret.mpr ⟨?_, by rintro _ ⟨⟩⟩
    rintro _ ⟨⟩
    exact ⟨hnone, rfl, hdir.1, hdir.2⟩

/-- What the steps after the binding leave: the lock at a new entry, or an error. -/
structure Locks (F : Faults) (session : SessionId) (listener : Fd) (s s' : Kernel)
    (r : Except IoError SessionFiles) : Prop where
  locked : ∀ files, r = .ok files → files = ⟨listener, s.fresh, sessionPaths session⟩ ∧
    s'.dir = update s.dir (sessionPaths session).lock (some s.fresh) ∧ s.fresh < s'.fresh
  conflict : F.Honest → ∀ error, r = .error error → error.kind = .alreadyExists →
    (s.dir (sessionPaths session).lock).isSome

/-- The mode of the socket, and the lock. -/
theorem wp_takeLock (hgood : Unobserved Good) {listener : Fd} :
    (solo i s₀ F Good).wp () (ExceptT.run (do
        ask (file (.setPermissions (sessionPaths session).socket 0o600))
        ask (socket (.setNonblocking listener true))
        match ← attempt (ask (file (.createNew (sessionPaths session).lock 0o600))) with
        | .ok lock => return lock
        | .error error =>
          ignore (ask (file (.removeFile .bindSession (sessionPaths session).socket)))
          throw error : Io Fd))
      (fun r log' =>
        (∀ lock, r = .ok lock → lock = (after i s₀ log).fresh ∧
          (after i s₀ log').dir = update (after i s₀ log).dir (sessionPaths session).lock
            (some (after i s₀ log).fresh) ∧
          (after i s₀ log).fresh < (after i s₀ log').fresh) ∧
        (F.Honest → ∀ error, r = .error error → error.kind = .alreadyExists →
          ((after i s₀ log).dir (sessionPaths session).lock).isSome)) log := by
  -- Before the lock is created no entry changes, and no inode is taken.
  refine wp_io_bind.mpr (wp_alone hgood (by rintro _ ⟨⟩) fun r hr => ?_)
  have hcreates := hr.creates
  have hmode : (after i s₀ (⟨.file (.setPermissions (sessionPaths session).socket 0o600), r⟩ ::
      log)).dir = (after i s₀ log).dir ∧
      (after i s₀ (⟨.file (.setPermissions (sessionPaths session).socket 0o600), r⟩ :: log)).fresh =
        (after i s₀ log).fresh := by
    show (Kernel.next i _ _ _).dir = _ ∧ (Kernel.next i _ _ _).fresh = _
    obtain ⟨error, -, hnext, -⟩ | ⟨n, -, -, hnext⟩ := hr.setPermissions
    · rw [hnext]
      exact ⟨rfl, rfl⟩
    · rw [hnext]
      exact ⟨rfl, rfl⟩
  obtain error | _ := r
  · refine wp_ret.mpr ⟨by rintro _ ⟨⟩, ?_⟩
    rintro - _ ⟨⟩ hkind
    exact (hcreates error rfl hkind).elim
  refine wp_io_bind.mpr (wp_alone hgood (by rintro _ ⟨⟩) fun r' hr' => ?_)
  have hcreates' := hr'.creates
  have hnonblocking : after i s₀ (⟨.socket (.setNonblocking listener true), r'⟩ ::
      ⟨.file (.setPermissions (sessionPaths session).socket 0o600), .ok ()⟩ :: log) =
        after i s₀ (⟨.file (.setPermissions (sessionPaths session).socket 0o600), .ok ()⟩ ::
          log) := by
    show Kernel.next i _ _ _ = _
    obtain ⟨_, -, -, hnext⟩ | hstep := hr'.socket
    · exact hnext
    · exact (congrArg Prod.snd hstep).symm
  obtain error | _ := r'
  · refine wp_ret.mpr ⟨by rintro _ ⟨⟩, ?_⟩
    rintro - _ ⟨⟩ hkind
    exact (hcreates' error rfl hkind).elim
  refine wp_attempt_bind.mpr (wp_alone hgood (by rintro _ ⟨⟩) fun r'' hr'' => ?_)
  rw [hnonblocking] at hr''
  obtain ⟨error, rfl, -, hcause⟩ | ⟨hnone, rfl, hnext⟩ := hr''.createNew
  · refine wp_ignore_bind.mpr (wp_alone hgood (by rintro _ ⟨⟩) fun r₃ hr₃ => wp_ret.mpr ?_)
    refine ⟨by rintro _ ⟨⟩, ?_⟩
    rintro hF _ ⟨⟩ hkind
    rw [← hmode.1]
    exact hcause.elim (fun hfault => absurd hkind (hF _ _ hfault).2) fun h => h.2
  · refine wp_ret.mpr ⟨?_, fun _ => by rintro _ ⟨⟩⟩
    rintro _ ⟨⟩
    refine ⟨hmode.2, ?_, ?_⟩
    · rw [after_cons, hnonblocking, hnext, ← hmode.1, ← hmode.2]
      rfl
    · rw [after_cons, hnonblocking, hnext, ← hmode.2]
      exact Nat.lt_succ_self _

theorem wp_lockSession (hgood : Unobserved Good) {listener : Fd} :
    (solo i s₀ F Good).wp () (Registry.lockSession (sessionPaths session) listener).run
      (fun r log' => Locks F session listener (after i s₀ log) (after i s₀ log') r) log := by
  refine wp_attempt_bind.mpr (wp_mono ?_ (wp_takeLock hgood))
  rintro (error | lock) log₁ ⟨hlocked, hconflict⟩
  · refine wp_lift_bind.mpr (wp_alone hgood (by rintro _ ⟨⟩) fun r hr => wp_ret.mpr ?_)
    refine ⟨by rintro _ ⟨⟩, ?_⟩
    rintro hF _ ⟨⟩
    exact hconflict hF error rfl
  · refine wp_ret.mpr ⟨?_, fun _ => by rintro _ ⟨⟩⟩
    rintro _ ⟨⟩
    obtain ⟨rfl, hdir, hlt⟩ := hlocked lock rfl
    exact ⟨rfl, hdir, hlt⟩

/-- A session was taken: its socket and its lock are new, it has no record, and of its other files
some may be gone. -/
structure Takes (session : SessionId) (files : SessionFiles) (s s' : Kernel) : Prop where
  paths : files.paths = sessionPaths session
  socket : ∃ n, s.fresh ≤ n ∧ s'.dir (sessionPaths session).socket = some n
  lock : ∃ n, s.fresh ≤ n ∧ s'.dir (sessionPaths session).lock = some n
  record : s'.dir (sessionPaths session).metadata = none
  rest : ∀ name, name ≠ (sessionPaths session).socket → name ≠ (sessionPaths session).lock →
    s'.dir name = s.dir name ∨ s'.dir name = none
  fresh_le : s.fresh ≤ s'.fresh

/-- A trace is all that is left of the session. -/
structure TraceLeft (session : SessionId) (s : Kernel) : Prop where
  trace : (s.dir (sessionPaths session).trace).isSome
  record : s.dir (sessionPaths session).metadata = none
  socket : s.dir (sessionPaths session).socket = none
  lock : s.dir (sessionPaths session).lock = none

theorem socket_ne_lock : (sessionPaths session).socket ≠ (sessionPaths session).lock := by
  have hnodup := sessionPaths_nodup session
  simp only [List.nodup_cons, List.mem_cons, not_or] at hnodup
  exact hnodup.1.2.1

theorem metadata_ne_lock : (sessionPaths session).metadata ≠ (sessionPaths session).lock := by
  have hnodup := sessionPaths_nodup session
  simp only [List.nodup_cons, List.mem_cons, not_or] at hnodup
  exact hnodup.2.1.1

theorem metadata_ne_socket : (sessionPaths session).metadata ≠ (sessionPaths session).socket := by
  have hnodup := sessionPaths_nodup session
  simp only [List.nodup_cons, List.mem_cons, not_or] at hnodup
  exact Ne.symm hnodup.1.1

theorem metadata_ne_trace : (sessionPaths session).metadata ≠ (sessionPaths session).trace := by
  have hnodup := sessionPaths_nodup session
  simp only [List.nodup_cons, List.mem_cons, not_or] at hnodup
  exact hnodup.2.1.2.2.1

theorem trace_ne_socket : (sessionPaths session).trace ≠ (sessionPaths session).socket := by
  have hnodup := sessionPaths_nodup session
  simp only [List.nodup_cons, List.mem_cons, not_or] at hnodup
  exact Ne.symm hnodup.1.2.2.2.1

theorem trace_ne_lock : (sessionPaths session).trace ≠ (sessionPaths session).lock := by
  have hnodup := sessionPaths_nodup session
  simp only [List.nodup_cons, List.mem_cons, not_or] at hnodup
  exact Ne.symm hnodup.2.2.1.2.1

/-- **Taking a session**: it is taken, or what is said to exist exists. -/
theorem wp_bindSession (hgood : Unobserved Good) (hF : F.Honest) :
    (solo i s₀ F Good).wp () (R.bindSession session).run
      (fun r log' =>
        (∀ files, r = .ok files → Takes session files (after i s₀ log) (after i s₀ log') ∧
          ((after i s₀ log').dir (sessionPaths session).trace = none ∨
            TraceLeft session (after i s₀ log))) ∧
        (F.Plain → ∀ error, r = .error error → error.kind = .alreadyExists →
          Held R session (after i s₀ log) log' ∨ Stale R session (after i s₀ log) log')) log := by
  unfold Registry.bindSession
  by_cases hfits : R.Fits session
  swap
  · rw [Registry.paths_error hfits]
    refine wp_ret.mpr ⟨by rintro _ ⟨⟩, ?_⟩
    rintro - _ ⟨⟩ ⟨⟩
  rw [Registry.paths_eq hfits, pure_bind]
  refine wp_seq _ (wp_clearSession hgood hF) (fun _ log₁ h₁ => ?_) fun error log₁ h₁ => ?_
  swap
  · refine ⟨by rintro _ ⟨⟩, ?_⟩
    rintro - _ ⟨⟩ hkind
    exact .inl (h₁.held error rfl hkind)
  -- A socket or a lock that is still there stands next to an expired record.
  have hstale : ∀ {log' : RunnerLog} {name : Name}, log₁ <:+ log' →
      (name = (sessionPaths session).socket ∨ name = (sessionPaths session).lock) →
        ((after i s₀ log₁).dir name).isSome → Stale R session (after i s₀ log) log' := by
    rintro log' name hextends hname hsome
    have hbefore : ((after i s₀ log).dir name).isSome := by
      obtain hkept | ⟨-, hgone⟩ := h₁.pruned.dir name
      · rwa [hkept] at hsome
      · rw [hgone] at hsome
        cases hsome
    have hplace : ((after i s₀ log).dir (sessionPaths session).socket).isSome ∨
        ((after i s₀ log).dir (sessionPaths session).lock).isSome := by
      obtain rfl | rfl := hname
      · exact .inl hbefore
      · exact .inr hbefore
    obtain ⟨hsocket, hlock⟩ | ⟨metadata, now, hrecord, hnow, hexpired⟩ := h₁.live rfl
    · obtain rfl | rfl := hname
      · rw [hsocket] at hsome
        cases hsome
      · rw [hlock] at hsome
        cases hsome
    · exact ⟨⟨metadata, now, hrecord, hextends.subset hnow, hexpired⟩, hplace⟩
  refine wp_attempt_bind.mpr (wp_mono ?_ (wp_extends (wp_bindListener hgood)))
  rintro (error | listener) log₂ ⟨h₂, hextends₂⟩
  · dsimp only
    split_ifs with haddress
    · refine wp_ret.mpr ⟨by rintro _ ⟨⟩, ?_⟩
      rintro hplain _ ⟨⟩ -
      exact .inr (hstale hextends₂ (.inl rfl) ((h₂.failed error rfl).2 hplain haddress))
    · refine wp_ret.mpr ⟨by rintro _ ⟨⟩, ?_⟩
      rintro - _ ⟨⟩ hkind
      exact absurd hkind (h₂.failed error rfl).1
  obtain ⟨hnone, rfl, hdir₂, hlt₂⟩ := h₂.listening listener rfl
  refine wp_mono ?_ (wp_extends (wp_lockSession hgood))
  rintro r log' ⟨h₃, hextends₃⟩
  refine ⟨fun files hr => ?_, fun hplain error hr hkind => ?_⟩
  · obtain ⟨rfl, hdir₃, hlt₃⟩ := h₃.locked files hr
    have hdir : ∀ name, name ≠ (sessionPaths session).socket → name ≠ (sessionPaths session).lock →
        (after i s₀ log').dir name = (after i s₀ log₁).dir name := by
      intro name hsocket hlock
      rw [hdir₃, update_of_ne hlock, hdir₂, update_of_ne hsocket]
    have hle := h₁.pruned.fresh_le
    refine ⟨⟨rfl, ⟨_, hle, ?_⟩, ⟨_, Nat.le_trans hle hlt₂.le, ?_⟩, ?_, ?_,
      Nat.le_trans hle (Nat.le_trans hlt₂.le hlt₃.le)⟩, ?_⟩
    · rw [hdir₃, update_of_ne socket_ne_lock, hdir₂, update_self]
    · rw [hdir₃, update_self]
    · rw [hdir _ metadata_ne_socket metadata_ne_lock]
      exact h₁.record rfl
    · intro name hsocket hlock
      rw [hdir name hsocket hlock]
      exact (h₁.pruned.dir name).imp_right And.right
    · rw [hdir _ trace_ne_socket trace_ne_lock]
      refine or_iff_not_imp_left.mpr fun hsome => ?_
      obtain ⟨hrecord, hsocket, hlock⟩ := (h₁.trace rfl).resolve_left hsome
      refine ⟨?_, hrecord, hsocket, hlock⟩
      obtain hkept | ⟨-, hgone⟩ := h₁.pruned.dir (sessionPaths session).trace
      · rw [← hkept]
        exact Option.ne_none_iff_isSome.mp hsome
      · exact absurd hgone hsome
  · have hlock := h₃.conflict hF error hr hkind
    rw [hdir₂, update_of_ne (Ne.symm socket_ne_lock)] at hlock
    exact .inr (hstale (hextends₂.trans hextends₃) (.inr rfl) hlock)

/-! ## Opening the registry, and taking a session -/

/-- The names of a session's files end in different ways. -/
theorem completedFiles_metadata {session' : SessionId}
    (h : CompletedFiles session' (sessionPaths session).metadata) : session' = session := by
  have houtput : (ascii ".out").length = 4 := by decide
  have htrace : (ascii ".trace").length = 6 := by decide
  have hjson : (ascii ".json").length = 5 := by decide
  obtain heq | heq | heq := h
  · have hlength := congrArg List.length heq
    simp only [sessionPaths, List.length_append, SessionId.length_toText, houtput, hjson] at hlength
    omega
  · have hlength := congrArg List.length heq
    simp only [sessionPaths, List.length_append, SessionId.length_toText, htrace, hjson] at hlength
    omega
  · exact SessionId.toText_injective (List.append_cancel_right heq).symm

/-- The socket and the lock of a session are no files of a finished one. -/
theorem not_completedFiles {session' : SessionId} {name : Name}
    (hname : name = (sessionPaths session).socket ∨ name = (sessionPaths session).lock) :
    ¬ CompletedFiles session' name := by
  have hlast : ∀ (bytes suffix : Bytes) (byte : UInt8), suffix.getLast? = some byte →
      (bytes ++ suffix).getLast? = some byte := by
    intro bytes suffix byte h
    rw [List.getLast?_append, h]
    rfl
  have hk : name.getLast? = some 0x6b := by
    obtain rfl | rfl := hname
    · exact hlast _ (ascii ".sock") _ (by decide)
    · exact hlast _ (ascii ".lock") _ (by decide)
  rintro (rfl | rfl | rfl)
  · cases (hlast _ (ascii ".out") 0x74 (by decide)).symm.trans hk
  · cases (hlast _ (ascii ".trace") 0x65 (by decide)).symm.trans hk
  · cases (hlast _ (ascii ".json") 0x6e (by decide)).symm.trans hk

theorem Takes.mono {files : SessionFiles} {s₁ s s' : Kernel}
    (hdir : ∀ name, s.dir name = s₁.dir name ∨ s.dir name = none) (hle : s₁.fresh ≤ s.fresh)
    (h : Takes session files s s') : Takes session files s₁ s' where
  paths := h.paths
  socket := by
    obtain ⟨n, hn, hentry⟩ := h.socket
    exact ⟨n, Nat.le_trans hle hn, hentry⟩
  lock := by
    obtain ⟨n, hn, hentry⟩ := h.lock
    exact ⟨n, Nat.le_trans hle hn, hentry⟩
  record := h.record
  rest name hsocket hlock := by
    obtain hkept | hgone := h.rest name hsocket hlock
    · rw [hkept]
      exact hdir name
    · exact .inr hgone
  fresh_le := Nat.le_trans hle h.fresh_le

/-- Sweeping the directory hides nothing of a session that is in use, or is stale. -/
theorem TraceLeft.of_swept {now : UInt64} {names : List Name} {s s' : Kernel}
    (hswept : Swept R now names s s') (h : TraceLeft session s') : TraceLeft session s := by
  have hlive : ∀ name, name = (sessionPaths session).socket ∨ name = (sessionPaths session).lock →
      s'.dir name = s.dir name := by
    intro name hname
    refine hswept.pruned.keeps ?_
    rintro ⟨session', metadata, -, -, -, hcompleted⟩
    exact not_completedFiles hname hcompleted
  have htrace : (s.dir (sessionPaths session).trace).isSome := by
    obtain hkept | ⟨-, hgone⟩ := hswept.pruned.dir (sessionPaths session).trace
    · rw [← hkept]
      exact h.trace
    · have hsome := h.trace
      rw [hgone] at hsome
      cases hsome
  refine ⟨htrace, ?_, ?_, ?_⟩
  · obtain hkept | ⟨hexpired, -⟩ := hswept.pruned.dir (sessionPaths session).metadata
    · rw [← hkept]
      exact h.record
    · -- An expired session is swept with its trace.
      obtain ⟨session', metadata, hrecord, hexpired, hlisted, hcompleted⟩ := hexpired
      obtain rfl := completedFiles_metadata hcompleted
      have hgone := hswept.gone _ ⟨_, metadata, hrecord, hexpired, hlisted, .inr (.inl rfl)⟩
      have hsome := h.trace
      rw [hgone] at hsome
      cases hsome
  · rw [← hlive _ (.inl rfl)]
    exact h.socket
  · rw [← hlive _ (.inr rfl)]
    exact h.lock

theorem Held.of_pruned {P : Name → Prop} {s s' : Kernel} {log : RunnerLog} (hpruned : Pruned P s s')
    (h : Held R session s' log) : Held R session s log := by
  obtain ⟨metadata, now, hrecord, hheld⟩ | ⟨n, hn, hlistening⟩ := h
  · exact .inl ⟨metadata, now, .of_pruned hpruned hrecord, hheld⟩
  · refine .inr ⟨n, ?_, ?_⟩
    · obtain hkept | ⟨-, hgone⟩ := hpruned.dir (sessionPaths session).socket
      · rw [← hkept, hn]
      · rw [hgone] at hn
        cases hn
    · rw [← hpruned.inode, hlistening]

theorem Stale.of_pruned {P : Name → Prop} {s s' : Kernel} {log : RunnerLog} (hpruned : Pruned P s s')
    (h : Stale R session s' log) : Stale R session s log := by
  obtain ⟨⟨metadata, now, hrecord, hnow⟩, hplace⟩ := h
  have hsome : ∀ name, (s'.dir name).isSome → (s.dir name).isSome := by
    intro name hname
    obtain hkept | ⟨-, hgone⟩ := hpruned.dir name
    · rw [← hkept]
      exact hname
    · rw [hgone] at hname
      cases hname
  exact ⟨⟨metadata, now, .of_pruned hpruned hrecord, hnow⟩, hplace.imp (hsome _) (hsome _)⟩

theorem Held.congr {R' : Registry} {s : Kernel} {log : RunnerLog} (h : Held R' session s log)
    (hsame : ∀ s metadata, HasRecord R' s session metadata → HasRecord R s session metadata) :
    Held R session s log := by
  refine h.imp_left ?_
  rintro ⟨metadata, now, hrecord, hheld⟩
  exact ⟨metadata, now, hsame s metadata hrecord, hheld⟩

theorem Stale.congr {R' : Registry} {s : Kernel} {log : RunnerLog} (h : Stale R' session s log)
    (hsame : ∀ s metadata, HasRecord R' s session metadata → HasRecord R s session metadata) :
    Stale R session s log := by
  obtain ⟨⟨metadata, now, hrecord, hnow⟩, hplace⟩ := h
  exact ⟨⟨metadata, now, hsame s metadata hrecord, hnow⟩, hplace⟩

/-- The entries and the inodes are as they were. -/
structure SameEntries (s s' : Kernel) : Prop where
  dir : s'.dir = s.dir
  inode : s'.inode = s.inode
  fresh_le : s.fresh ≤ s'.fresh

namespace SameEntries

theorem trans {s s' s'' : Kernel} (h : SameEntries s s') (h' : SameEntries s' s'') :
    SameEntries s s'' :=
  ⟨h'.dir.trans h.dir, h'.inode.trans h.inode, Nat.le_trans h.fresh_le h'.fresh_le⟩

/-- No call on processes changes an entry or an inode. -/
theorem next {s : Kernel} (call : ProcessCall) (r : call.Answer) :
    SameEntries s (s.next i (.process call) r) := by
  have heffect := Kernel.next_effect i s (.process call) r
  generalize s.next i (.process call) r = s' at heffect ⊢
  cases heffect with
  | quiet hsame => exact ⟨hsame.dir, hsame.inode, hsame.fresh_le⟩
  | mask => exact ⟨rfl, rfl, Nat.le_refl _⟩

theorem record {s s' : Kernel} {metadata : SessionMetadata} (hsame : SameEntries s s')
    (h : HasRecord R s session metadata) : HasRecord R s' session metadata := by
  unfold HasRecord
  rw [hsame.dir, hsame.inode]
  exact h

theorem held {s s' : Kernel} {log : RunnerLog} (hsame : SameEntries s s')
    (h : Held R session s' log) : Held R session s log := by
  unfold Held HasRecord Reachable at h
  rw [hsame.dir, hsame.inode] at h
  exact h

theorem stale {s s' : Kernel} {log : RunnerLog} (hsame : SameEntries s s')
    (h : Stale R session s' log) : Stale R session s log := by
  unfold Stale HasRecord at h
  rw [hsame.dir, hsame.inode] at h
  exact h

end SameEntries

/-- **The first half of a start**: the session is taken, or what is said to exist exists. -/
theorem wp_takeSession (hgood : Unobserved Good) (hF : F.Honest) {serde : Serde} {self : Self}
    (hR : R.Of serde self) :
    (solo i s₀ F Good).wp () (takeSession serde self session).run
      (fun r log' =>
        (∀ taken, r = .ok taken → taken.1.Of serde self ∧
          Takes session taken.2 (after i s₀ log) (after i s₀ log') ∧
            ((after i s₀ log').dir (sessionPaths session).trace = none ∨
              TraceLeft session (after i s₀ log))) ∧
        (F.Plain → ∀ error, r = .error error → error.kind = .alreadyExists →
          Held R session (after i s₀ log) log' ∨ Overdue R session (after i s₀ log) log')) log := by
  have hplain : ∀ {log' : RunnerLog} {error : IoError}, error.kind ≠ .alreadyExists →
      (∀ taken, (.error error : Except IoError (Registry × SessionFiles)) = .ok taken →
        taken.1.Of serde self ∧ Takes session taken.2 (after i s₀ log) (after i s₀ log') ∧
          ((after i s₀ log').dir (sessionPaths session).trace = none ∨
            TraceLeft session (after i s₀ log))) ∧
      (F.Plain → ∀ error', (.error error : Except IoError (Registry × SessionFiles)) = .error error' →
        error'.kind = .alreadyExists →
          Held R session (after i s₀ log) log' ∨ Overdue R session (after i s₀ log) log') := by
    intro log' error hkind
    refine ⟨by rintro _ ⟨⟩, ?_⟩
    rintro - _ ⟨⟩ hexists
    exact absurd hexists hkind
  refine wp_io_bind.mpr (wp_alone hgood (by rintro _ ⟨⟩) fun r hr => ?_)
  have hcreates := hr.creates
  obtain error | _ := r
  · exact wp_ret.mpr (hplain fun hkind => hcreates error rfl hkind)
  refine wp_lift_bind.mpr (wp_alone hgood (by rintro _ ⟨⟩) fun r hr => ?_)
  -- Nothing but the mask has changed.
  have hmasked : SameEntries (after i s₀ log)
      (after i s₀ (⟨.process (.umask 0o077), r⟩ :: ⟨.process .setsid, .ok ()⟩ :: log)) :=
    (SameEntries.next _ _).trans (SameEntries.next _ _)
  generalize (⟨.process (.umask 0o077), r⟩ :: ⟨.process .setsid, .ok ()⟩ :: log : RunnerLog) = log₁
    at hmasked ⊢
  refine wp_seq _ (wp_openRegistry hgood hF) (fun R' log₂ h₂ => ?_) fun error log₂ h₂ =>
    hplain ((h₂.2 R hR).plain error rfl)
  obtain ⟨now, names, hopened, -, -, hswept⟩ := (h₂.2 R hR).swept R' rfl
  have hR' := h₂.1 R' rfl
  refine wp_seq _ (wp_extends (wp_bindSession hgood hF)) (fun files log₃ h₃ => ?_) fun error log₃ h₃ => ?_
  · obtain ⟨htakes, htrace⟩ := h₃.1.1 files rfl
    refine wp_ret.mpr ⟨?_, fun _ => by rintro _ ⟨⟩⟩
    rintro _ ⟨⟩
    refine ⟨hR', htakes.mono (fun name => ?_) ?_, htrace.imp_right fun hleft => ?_⟩
    · rw [← hmasked.dir]
      exact (hswept.pruned.dir name).imp_right And.right
    · exact Nat.le_trans hmasked.fresh_le hswept.pruned.fresh_le
    · have hbefore := hleft.of_swept hswept
      refine ⟨?_, ?_, ?_, ?_⟩
      · rw [← hmasked.dir]
        exact hbefore.trace
      · rw [← hmasked.dir]
        exact hbefore.record
      · rw [← hmasked.dir]
        exact hbefore.socket
      · rw [← hmasked.dir]
        exact hbefore.lock
  · refine ⟨by rintro _ ⟨⟩, ?_⟩
    rintro hplainF _ ⟨⟩ hkind
    -- What the registry finds for this user does not depend on its root.
    have hsame : ∀ s metadata, HasRecord R' s session metadata → HasRecord R s session metadata := by
      rintro s metadata ⟨n, hn, hnode, hle, hbytes, hid⟩
      rw [hR'.1, ← hR.1] at hnode
      rw [hR'.2, ← hR.2] at hbytes
      exact ⟨n, hn, hnode, hle, hbytes, hid⟩
    refine (h₃.1.2 hplainF error rfl hkind).imp ?_ ?_
    · exact fun hheld => hmasked.held (Held.congr (Held.of_pruned hswept.pruned hheld) hsame)
    · intro hstale
      refine ⟨hmasked.stale (Stale.congr (Stale.of_pruned hswept.pruned hstale) hsame), now, names,
        ⟨h₃.2.subset hopened.1, h₃.2.subset hopened.2⟩, ?_⟩
      -- A listed record that had expired would be gone.
      intro metadata hrecord hexpired hlisted
      obtain ⟨⟨metadata', -, ⟨n, hn, -⟩, -⟩, -⟩ := hstale
      have hgone := hswept.gone _
        ⟨session, metadata, hmasked.record hrecord, hexpired, hlisted, .inr (.inr rfl)⟩
      rw [hgone] at hn
      cases hn

end Alone

end AfkCli
