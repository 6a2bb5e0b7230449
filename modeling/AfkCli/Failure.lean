import AfkCli.Presence
import AfkCli.Starting

/-!
# Starts that fail

What a start that fails after its session was taken leaves in the runtime directory: the process
runs alone, and any of its calls may fail.

## Main definitions

* `Milestone`, `milestones`: the answers that decide what a failed start leaves
* `LeavesNothing`: no file of the start remains, and no live record

## Main results

* `wp_prepareRunner`, `wp_drop`: the steps
* `start_leaves_nothing`: a failed start leaves nothing exactly when it had not created its trace,
  and its live record was not written
-/

namespace AfkCli

open Interaction Discipline Function Alone

/-! ## Milestones -/

/-- The answers that decide what a failed start leaves. -/
inductive Milestone
  /-- the trace file was created -/
  | traced
  /-- the launcher was gone when the runner was ready -/
  | unanswered
  /-- the terminal could not be made non-blocking -/
  | blocking
  /-- it could: the event loop is entered -/
  | entered
  /-- the socket or the lock could not be removed -/
  | kept
  deriving DecidableEq

def milestone (session : SessionId) : RunnerEvent → Option Milestone
  | ⟨.file (.createNew name _), .ok _⟩ =>
    if name = (sessionPaths session).trace then some .traced else none
  | ⟨.file (.removeFile .dropSessionFiles _), .error _⟩ => some .kept
  | ⟨.process (.sendResponse _), .error _⟩ => some .unanswered
  | ⟨.process .setPtyNonblocking, .error _⟩ => some .blocking
  | ⟨.process .setPtyNonblocking, .ok _⟩ => some .entered
  | _ => none

/-- The milestones of a log, the newest first. -/
def milestones (session : SessionId) (log : RunnerLog) : List Milestone :=
  log.filterMap (milestone session)

/-- The session has a live record in the inode `n`. -/
def LiveAt (serde : Serde) (session : SessionId) (n : Nat) (s : Kernel) : Prop :=
  s.dir (sessionPaths session).metadata = some n ∧ ∃ runnerPid childPid startedAt attached,
    serde.fromSlice (s.inode n).bytes =
      some (.live session.toText runnerPid childPid startedAt attached)

/-- No socket, lock or trace that was created since the state `s` remains in the state `s'`, and no
live record. The inodes from `s.fresh` on were unused. -/
structure LeavesNothing (serde : Serde) (session : SessionId) (s s' : Kernel) : Prop where
  files : ∀ name, name = (sessionPaths session).socket ∨ name = (sessionPaths session).lock ∨
    name = (sessionPaths session).trace → ∀ n, s'.dir name = some n → n < s.fresh
  record : ∀ n, ¬ LiveAt serde session n s'

namespace Failure

/-- The calls whose answers decide nothing. -/
def Routine (session : SessionId) (op : Call) : Prop :=
  ∀ r, milestone session ⟨op, r⟩ = none

section rules

variable {i : Proc} {s₀ : Kernel} {F : Faults} {log log' : RunnerLog} {session : SessionId} {n : Nat}

theorem milestones_grew (h : GrewBy (Routine session) log log') :
    milestones session log' = milestones session log := by
  obtain ⟨new, rfl, hnew⟩ := h
  rw [milestones, List.filterMap_append, List.filterMap_eq_nil_iff.mpr fun e he => hnew e he e.answer]
  rfl

theorem mem_milestones_of_suffix {m : Milestone} (h : log <:+ log')
    (hm : m ∈ milestones session log) : m ∈ milestones session log' :=
  (h.filterMap _).subset hm

theorem routine_of_spares {op : Call} (h : Presence.Spares n op) : Routine session op := by
  intro r
  rcases op with op | op | op | op | op <;> cases op <;> first
    | exact h.elim
    | rfl

variable (session) in
/-- A program that leaves the entries alone has no milestone. -/
theorem wp_still {α : Type} {q : α → Prop} {p : Prog α}
    (hp : p.Within (fun _ _ => True) (Presence.Spares n) q) :
    (solo i s₀ F fun _ => True).wp () p
      (fun a log' => q a ∧ Presence.Spared n (after i s₀ log) (after i s₀ log') ∧
        milestones session log' = milestones session log) log := by
  refine wp_mono (fun a log' h => ?_) (wp_grows hp (Presence.wp_spares hp))
  obtain ⟨⟨hq, hspared⟩, new, hlog, hnew⟩ := h
  exact ⟨hq, hspared, milestones_grew ⟨new, hlog, fun e he => routine_of_spares (hnew e he)⟩⟩

/-- A program of routine calls has no milestone. -/
theorem wp_routine {α : Type} {p : Prog α} {Q : α → RunnerLog → Prop}
    (hp : Calls (Routine session) p) (h : (solo i s₀ F fun _ => True).wp () p Q log) :
    (solo i s₀ F fun _ => True).wp () p
      (fun a log' => Q a log' ∧ milestones session log' = milestones session log) log :=
  wp_mono (fun _ _ h => ⟨h.1, milestones_grew h.2⟩) (wp_grows hp h)

end rules

/-! ## The live record -/

section names

variable {session : SessionId} {name : Name} {pid : UInt32}

theorem length_metadata : (sessionPaths session).metadata.length = 37 := by
  show (session.toText ++ ascii ".json").length = 37
  have hjson : (ascii ".json").length = 5 := by decide
  rw [List.length_append, session.length_toText, hjson]

/-- The names of a session's files are short. -/
theorem length_name (h : name = (sessionPaths session).socket ∨
    name = (sessionPaths session).lock ∨ name = (sessionPaths session).trace ∨
      name = (sessionPaths session).metadata) : name.length ≤ 38 := by
  have hsocket : (ascii ".sock").length ≤ 6 := by decide
  have hlock : (ascii ".lock").length ≤ 6 := by decide
  have htrace : (ascii ".trace").length ≤ 6 := by decide
  have hjson : (ascii ".json").length ≤ 6 := by decide
  obtain rfl | rfl | rfl | rfl := h
  all_goals
    simp only [sessionPaths, List.length_append, session.length_toText]
    omega

theorem temporary_ne (h : name = (sessionPaths session).socket ∨
    name = (sessionPaths session).lock ∨ name = (sessionPaths session).trace ∨
      name = (sessionPaths session).metadata) :
    name ≠ temporaryName (sessionPaths session).metadata pid := by
  intro heq
  have hshort := length_name h
  have hdot : (ascii ".").length = 1 := by decide
  have htmp : (ascii ".tmp.").length = 5 := by decide
  rw [heq, temporaryName, List.length_append, List.length_append, List.length_append,
    length_metadata, hdot, htmp] at hshort
  omega

end names

/-! ## What is there -/

/-- The entries of the socket and the lock are as they were, and there is a new trace when one was
created. -/
structure Kept (session : SessionId) (s s' : Kernel) (ms : List Milestone) : Prop where
  socket : s'.dir (sessionPaths session).socket = s.dir (sessionPaths session).socket
  lock : s'.dir (sessionPaths session).lock = s.dir (sessionPaths session).lock
  trace : (.traced ∉ ms ∧ s'.dir (sessionPaths session).trace = s.dir (sessionPaths session).trace) ∨
    (.traced ∈ ms ∧ ∃ n, s.fresh ≤ n ∧ s'.dir (sessionPaths session).trace = some n)
  fresh_le : s.fresh ≤ s'.fresh

/-- Before its live record is written the session has none. -/
structure Early (session : SessionId) (s s' : Kernel) (ms : List Milestone) : Prop where
  kept : Kept session s s' ms
  record : s'.dir (sessionPaths session).metadata = none
  quiet : ∀ m ∈ ms, m = .traced

/-- The live record is written. -/
structure Started (serde : Serde) (session : SessionId) (n : Nat) (s s' : Kernel)
    (ms : List Milestone) : Prop where
  kept : Kept session s s' ms
  live : LiveAt serde session n s'
  quiet : ∀ m ∈ ms, m = .traced

/-- The start has failed, and nothing is removed yet. -/
structure Failed (serde : Serde) (session : SessionId) (s s' : Kernel) (ms : List Milestone) :
    Prop where
  kept : Kept session s s' ms
  record : (s'.dir (sessionPaths session).metadata = none ∧ .unanswered ∉ ms ∧ .blocking ∉ ms) ∨
    (∃ n, LiveAt serde session n s') ∧ (.unanswered ∈ ms ∨ .blocking ∈ ms)
  undropped : .kept ∉ ms

section states

variable {serde : Serde} {session : SessionId} {n : Nat} {s s' s'' : Kernel} {ms : List Milestone}

theorem LiveAt.spared (h : LiveAt serde session n s) (hspared : Presence.Spared n s s') :
    LiveAt serde session n s' := by
  obtain ⟨hdir, hlive⟩ := h
  refine ⟨?_, ?_⟩
  · rw [hspared.dir, hdir]
  · rw [hspared.inode]
    exact hlive

theorem Kept.spared (h : Kept session s s' ms) (hspared : Presence.Spared n s' s'') :
    Kept session s s'' ms where
  socket := by rw [hspared.dir, h.socket]
  lock := by rw [hspared.dir, h.lock]
  trace := by
    rw [hspared.dir]
    exact h.trace
  fresh_le := Nat.le_trans h.fresh_le hspared.fresh_le

theorem Early.spared (h : Early session s s' ms) (hspared : Presence.Spared n s' s'') :
    Early session s s'' ms :=
  ⟨h.kept.spared hspared, by rw [hspared.dir, h.record], h.quiet⟩

theorem Started.spared (h : Started serde session n s s' ms) (hspared : Presence.Spared n s' s'') :
    Started serde session n s s'' ms :=
  ⟨h.kept.spared hspared, LiveAt.spared h.live hspared, h.quiet⟩

theorem not_mem_of_quiet {m : Milestone} (h : ∀ m ∈ ms, m = .traced) (hm : m ≠ .traced) : m ∉ ms :=
  fun hmem => hm (h m hmem)

/-- An early failure. -/
theorem Early.failed (h : Early session s s' ms) : Failed serde session s s' ms where
  kept := h.kept
  record := .inl ⟨h.record, not_mem_of_quiet h.quiet (by decide), not_mem_of_quiet h.quiet (by decide)⟩
  undropped := not_mem_of_quiet h.quiet (by decide)

/-- A milestone that is not the trace leaves the entries. -/
theorem Kept.cons {m : Milestone} (h : Kept session s s' ms) (hm : m ≠ .traced) :
    Kept session s s' (m :: ms) where
  socket := h.socket
  lock := h.lock
  trace := by
    refine h.trace.imp ?_ ?_
    · exact fun htrace => ⟨List.not_mem_cons_of_ne_of_not_mem (Ne.symm hm) htrace.1, htrace.2⟩
    · exact fun htrace => ⟨List.mem_cons_of_mem _ htrace.1, htrace.2⟩
  fresh_le := h.fresh_le

/-- A failure once the record is written. -/
theorem Started.failed {m : Milestone} (h : Started serde session n s s' ms)
    (hm : m = .unanswered ∨ m = .blocking) : Failed serde session s s' (m :: ms) where
  kept := h.kept.cons (by obtain rfl | rfl := hm <;> decide)
  record := by
    refine .inr ⟨⟨n, h.live⟩, ?_⟩
    obtain rfl | rfl := hm
    · exact .inl List.mem_cons_self
    · exact .inr List.mem_cons_self
  undropped := List.not_mem_cons_of_ne_of_not_mem (by obtain rfl | rfl := hm <;> decide)
    (not_mem_of_quiet h.quiet (by decide))

/-- A failed start is as it was while the inode of its record is spared. -/
theorem Failed.spares (h : Failed serde session s s' ms) :
    ∃ n, ∀ s'', Presence.Spared n s' s'' → Failed serde session s s'' ms := by
  obtain ⟨hnone, hms⟩ | ⟨⟨n, hn⟩, hms⟩ := h.record
  · refine ⟨0, fun s'' hspared => ⟨h.kept.spared hspared, .inl ⟨?_, hms⟩, h.undropped⟩⟩
    rw [hspared.dir, hnone]
  · refine ⟨n, fun s'' hspared => ⟨h.kept.spared hspared, .inr ⟨⟨n, ?_⟩, hms⟩, h.undropped⟩⟩
    exact LiveAt.spared hn hspared

/-- The trace is created. -/
theorem Early.traced {i : Proc} (h : Early session s s' ms) :
    Early session s (s'.create (sessionPaths session).trace (s'.newFile i 0o600))
      (.traced :: ms) where
  kept := by
    refine ⟨?_, ?_, .inr ⟨List.mem_cons_self, s'.fresh, h.kept.fresh_le, ?_⟩,
      Nat.le_succ_of_le h.kept.fresh_le⟩
    · exact (update_of_ne (Ne.symm trace_ne_socket) _ _).trans h.kept.socket
    · exact (update_of_ne (Ne.symm trace_ne_lock) _ _).trans h.kept.lock
    · exact update_self ..
  record := (update_of_ne metadata_ne_trace _ _).trans h.record
  quiet m hm := by
    obtain rfl | hm := List.mem_cons.mp hm
    · rfl
    · exact h.quiet m hm

end states

/-! ### The steps -/

section steps

variable {i : Proc} {s₀ s₁ : Kernel} {F : Faults} {log : RunnerLog} {session : SessionId}
  {self : Self} {R : Registry} {files : SessionFiles} {n : Nat} {trace : Option Trace}

/-- `?` after a program that leaves the entries alone, before the record is written. -/
theorem wp_early {α β : Type} {q : α → Prop} {p : Io α} {f : α → Io β}
    {Q : Except IoError β → RunnerLog → Prop}
    (h : Early session s₁ (after i s₀ log) (milestones session log))
    (hp : Yields (Presence.Spares n) q p)
    (hok : ∀ a log', q a → Presence.Spared n (after i s₀ log) (after i s₀ log') →
      Early session s₁ (after i s₀ log') (milestones session log') →
        (solo i s₀ F fun _ => True).wp () (f a).run Q log')
    (herror : ∀ error log', Early session s₁ (after i s₀ log') (milestones session log') →
      Q (.error error) log') :
    (solo i s₀ F fun _ => True).wp () (p >>= f).run Q log := by
  have hearly : ∀ log', Presence.Spared n (after i s₀ log) (after i s₀ log') →
      milestones session log' = milestones session log →
        Early session s₁ (after i s₀ log') (milestones session log') := by
    intro log' hspared hms
    rw [hms]
    exact h.spared hspared
  refine wp_seq _ (wp_still session hp) (fun a log' h' => ?_) fun error log' h' => ?_
  · exact hok a log' (h'.1 a rfl) h'.2.1 (hearly log' h'.2.1 h'.2.2)
  · exact herror error log' (hearly log' h'.2.1 h'.2.2)

theorem wp_takeTrace {enabled : Bool} {component : String}
    (h : Early session s₁ (after i s₀ log) (milestones session log)) :
    (solo i s₀ F fun _ => True).wp ()
      (ExceptT.run (if enabled then some <$> Trace.create self (sessionPaths session).trace component
        else pure none : Io _))
      (fun r log' => Early session s₁ (after i s₀ log') (milestones session log') ∧
        ∀ trace, r = .ok trace → Presence.Below trace (after i s₀ log')) log := by
  refine wp_and ?_ Presence.wp_createTrace
  split_ifs
  · rw [map_eq_pure_bind, Trace.create, bind_assoc]
    refine wp_io_bind.mpr (wp_alone unobserved_true (by rintro _ ⟨⟩) fun r hr => ?_)
    obtain ⟨error, rfl, hnext, -⟩ | ⟨-, rfl, hnext⟩ := hr.createNew
    · refine wp_ret.mpr ?_
      rw [after_cons, hnext]
      exact h
    · have hnext' : after i s₀ (⟨.file (.createNew (sessionPaths session).trace 0o600),
          .ok (after i s₀ log).fresh⟩ :: log) = (after i s₀ log).create (sessionPaths session).trace
            ((after i s₀ log).newFile i 0o600) := hnext
      have hms : milestones session (⟨.file (.createNew (sessionPaths session).trace 0o600),
          .ok (after i s₀ log).fresh⟩ :: log) = .traced :: milestones session log := by
        rw [milestones, List.filterMap_cons, milestone, if_pos rfl]
        rfl
      have hearly := h.traced (i := i)
      rw [← hnext', ← hms] at hearly
      have hbelow : Presence.Below (some { file := (after i s₀ log).fresh, component, written := 0 })
          (after i s₀ (⟨.file (.createNew (sessionPaths session).trace 0o600),
            .ok (after i s₀ log).fresh⟩ :: log)) := by
        rintro _ ⟨⟩
        rw [hnext']
        exact Nat.lt_succ_self _
      exact wp_early hearly (.lift (within_traceWrite hbelow.takes _ _))
        (fun _ _ _ _ h => wp_ret.mpr h) fun _ _ h => h
  · exact wp_ret.mpr h

theorem routine_atomicWrite {bytes : Bytes} :
    Only (Routine session) (atomicWrite self (sessionPaths session).metadata bytes) := by
  have hcreate : Routine session (.file (.createNew
      (temporaryName (sessionPaths session).metadata self.pid) 0o600)) := by
    intro r
    cases r with
    | ok fd => exact if_neg (Ne.symm (temporary_ne (.inr (.inr (.inl rfl)))))
    | error error => rfl
  refine .bind (.ask (.perform hcreate)) fun fd => ?_
  refine .bind (.attempt ?_) fun r => ?_
  · refine .bind (.ask (.perform fun r => ?_)) fun _ =>
      .bind (.ask (.perform fun r => ?_)) fun _ => .ask (.perform fun r => ?_)
    all_goals rfl
  · cases r with
    | ok _ => exact .pure _
    | error error =>
      refine .bind (.ignore (.ask (.perform fun r => ?_))) fun _ => .throw _
      rfl

/-- Writing the live record: it is there, or nothing has changed for the session. -/
theorem wp_startLive {ctx : RunnerContext} {attached : Bool}
    (hpaths : ctx.files.paths = sessionPaths session) (hsession : ctx.session = session)
    (h : Early session s₁ (after i s₀ log) (milestones session log)) :
    (solo i s₀ F fun _ => True).wp () (ctx.writeLive attached).run
      (fun r log' =>
        (∀ error, r = .error error → Early session s₁ (after i s₀ log') (milestones session log')) ∧
        (r = .ok () → ∃ n, Started ctx.registry.serde session n s₁ (after i s₀ log')
          (milestones session log'))) log := by
  unfold RunnerContext.writeLive Registry.writeMetadata
  rw [hpaths]
  dsimp only
  split_ifs
  · refine wp_ret.mpr ⟨fun _ _ => h, by rintro ⟨⟩⟩
  refine wp_mono ?_ (wp_routine routine_atomicWrite (Alone.wp_atomicWrite unobserved_true))
  rintro r log' ⟨hwrites, hms⟩
  rw [hms]
  refine ⟨fun error hr => ?_, fun hr => ?_⟩
  · -- At most a temporary file has appeared.
    have hdir : ∀ name, name = (sessionPaths session).socket ∨ name = (sessionPaths session).lock ∨
        name = (sessionPaths session).trace ∨ name = (sessionPaths session).metadata →
          (after i s₀ log').dir name = (after i s₀ log).dir name := by
      intro name hname
      obtain hsame | ⟨-, hnew⟩ := hwrites.failed error hr
      · rw [hsame]
      · rw [hnew]
        exact update_of_ne (temporary_ne hname) _ _
    refine ⟨⟨?_, ?_, ?_, Nat.le_trans h.kept.fresh_le hwrites.fresh_le⟩, ?_, h.quiet⟩
    · rw [hdir _ (.inl rfl), h.kept.socket]
    · rw [hdir _ (.inr (.inl rfl)), h.kept.lock]
    · rw [hdir _ (.inr (.inr (.inl rfl)))]
      exact h.kept.trace
    · rw [hdir _ (.inr (.inr (.inr rfl))), h.record]
  · obtain ⟨hdir, hnode, -⟩ := hwrites.written hr
    refine ⟨(after i s₀ log).fresh,
      ⟨?_, ?_, ?_, Nat.le_trans h.kept.fresh_le hwrites.fresh_le⟩, ⟨?_, ?_⟩, h.quiet⟩
    · rw [hdir, update_of_ne (Ne.symm metadata_ne_socket), h.kept.socket]
    · rw [hdir, update_of_ne (Ne.symm metadata_ne_lock), h.kept.lock]
    · rw [hdir, update_of_ne (Ne.symm metadata_ne_trace)]
      exact h.kept.trace
    · rw [hdir, update_self]
    · rw [hnode]
      refine ⟨ctx.self.pid, ctx.childPid, ctx.startedAt, attached, ?_⟩
      show ctx.registry.serde.fromSlice (ctx.registry.serde.toVec (ctx.liveMetadata attached)) = _
      rw [ctx.registry.serde.fromSlice_toVec, RunnerContext.liveMetadata, hsession]

/-- What the preparation of the runner leaves. -/
structure Prepares (serde : Serde) (session : SessionId) (files : SessionFiles) (s s' : Kernel)
    (ms : List Milestone) (r : Except IoError (RunnerContext × Option Trace)) : Prop where
  failed : ∀ error, r = .error error → Failed serde session s s' ms
  started : ∀ prepared, r = .ok prepared → prepared.1.files = files ∧
    ∃ n, Started serde session n s s' ms

theorem Prepares.of_failed {serde : Serde} {s s' : Kernel} {ms : List Milestone} {error : IoError}
    (h : Failed serde session s s' ms) : Prepares serde session files s s' ms (.error error) :=
  ⟨fun _ _ => h, by rintro _ ⟨⟩⟩

/-- A step after the failure that leaves the entries alone. -/
theorem wp_failed {α : Type} {p : Prog α} {serde : Serde}
    (h : Failed serde session s₁ (after i s₀ log) (milestones session log))
    (hp : ∀ n, Calls (Presence.Spares n) p) :
    (solo i s₀ F fun _ => True).wp () p
      (fun _ log' => Failed serde session s₁ (after i s₀ log') (milestones session log')) log := by
  obtain ⟨n, hn⟩ := h.spares
  refine wp_mono ?_ (wp_still session (hp n))
  rintro a log' ⟨-, hspared, hms⟩
  rw [hms]
  exact hn _ hspared

/-- The runner drops its terminal and its child. -/
theorem wp_undo {error : IoError} {serde : Serde}
    (h : Failed serde session s₁ (after i s₀ log) (milestones session log)) :
    (solo i s₀ F fun _ => True).wp () (ExceptT.run (do
        process .closePty
        ignore (ask (process (.killChild .kill)))
        ignore (ask (process .waitChild))
        throw error : Io (RunnerContext × Option Trace)))
      (fun r log' => Prepares serde session files s₁ (after i s₀ log') (milestones session log') r)
      log := by
  refine wp_lift_bind.mpr (wp_mono ?_ (wp_failed h fun n => .perform trivial))
  intro _ log₁ h₁
  refine wp_ignore_bind.mpr (wp_mono ?_ (wp_failed h₁ fun n => .perform trivial))
  intro _ log₂ h₂
  refine wp_ignore_bind.mpr (wp_mono ?_ (wp_failed h₂ fun n => .perform trivial))
  intro _ log₃ h₃
  exact wp_ret.mpr (.of_failed h₃)

theorem wp_prepareRunner {config : StartupConfig} (hpaths : files.paths = sessionPaths session)
    (h : Early session s₁ (after i s₀ log) (milestones session log)) :
    (solo i s₀ F fun _ => True).wp () (prepareRunner self R session files config).run
      (fun r log' => Prepares R.serde session files s₁ (after i s₀ log') (milestones session log') r)
      log := by
  unfold prepareRunner
  rw [hpaths]
  have hearly : ∀ (error : IoError) log',
      Early session s₁ (after i s₀ log') (milestones session log') →
        Prepares R.serde session files s₁ (after i s₀ log') (milestones session log')
          (.error error) := fun error log' h => .of_failed h.failed
  refine wp_seq _ (wp_takeTrace h) (fun trace log₁ h₁ => ?_) fun error log₁ h₁ => hearly _ _ h₁.1
  have hbelow₁ := h₁.2 trace rfl
  refine wp_early h₁.1 (.lift (within_traceEvent hbelow₁.takes _))
    (fun trace₂ log₂ htrace₂ hspared₂ h₂ => ?_) hearly
  have hbelow₂ := hbelow₁.spared htrace₂ hspared₂
  have hpty : Only (Presence.Spares (after i s₀ log₂).fresh)
      (createPty config.rows config.columns) := by
    refine .bind ?_ fun _ => .ask (.perform trivial)
    unfold validateDimensions
    split_ifs
    · exact .pure _
    · exact .throw _
  refine wp_early h₂ (.of_only hpty fun _ => trivial)
    (fun _ log₃ _ hspared₃ h₃ => ?_) hearly
  have hbelow₃ := hbelow₂.spared rfl hspared₃
  refine wp_attempt_bind.mpr (wp_mono ?_
    (wp_still session (Presence.yields_spawnChild hbelow₃.takes)))
  rintro (error | ⟨trace₄, startedAt, childPid⟩) log₄ ⟨hspawned, hspared₄, hms₄⟩
  · -- The child was not started: only the terminal is dropped.
    have h₄ := h₃.spared hspared₄
    rw [← hms₄] at h₄
    have hfailed : Failed R.serde session s₁ (after i s₀ log₄) (milestones session log₄) := h₄.failed
    refine wp_lift_bind.mpr (wp_mono ?_ (wp_failed hfailed fun n => .perform trivial))
    exact fun _ log₅ h₅ => wp_ret.mpr (.of_failed h₅)
  have h₄ := h₃.spared hspared₄
  rw [← hms₄] at h₄
  refine wp_attempt_bind.mpr (wp_seq _ (wp_startLive hpaths rfl h₄) (fun _ log₅ h₅ => ?_)
    fun error log₅ h₅ => wp_undo (h₅.1 error rfl).failed)
  obtain ⟨n, h₅⟩ := h₅.2 rfl
  refine wp_recorded fun r _ => ⟨trivial, ?_⟩
  have hspared₆ : Presence.Spared n (after i s₀ log₅)
      (after i s₀ (⟨.process (.sendResponse startupReady), r⟩ :: log₅)) :=
    .process (.sendResponse startupReady) r
  have h₆ := h₅.spared hspared₆
  obtain error | _ := r
  · exact wp_undo (h₆.failed (.inl rfl))
  · refine wp_ret.mpr ⟨by rintro _ ⟨⟩, ?_⟩
    rintro _ ⟨⟩
    exact ⟨rfl, n, h₆⟩

/-! ### The drop -/

/-- What dropping the files leaves: the entries are gone, or one of them was kept. -/
structure Drops (session : SessionId) (s s' : Kernel) (ms ms' : List Milestone) : Prop where
  rest : ∀ name, name ≠ (sessionPaths session).socket → name ≠ (sessionPaths session).lock →
    s'.dir name = s.dir name
  bytes : ∀ n, (s'.inode n).bytes = (s.inode n).bytes
  others : ∀ m, m ≠ .kept → (m ∈ ms' ↔ m ∈ ms)
  entries : (.kept ∉ ms' ∧ s'.dir (sessionPaths session).socket = none ∧
      s'.dir (sessionPaths session).lock = none) ∨
    (.kept ∈ ms' ∧ (s'.dir (sessionPaths session).socket = s.dir (sessionPaths session).socket ∨
      s'.dir (sessionPaths session).lock = s.dir (sessionPaths session).lock))

variable (session) in
theorem wp_dropEntry {name : Name} :
    (solo i s₀ F fun _ => True).wp () (Program.perform (.file (.removeFile .dropSessionFiles name)))
      (fun _ log' => (milestones session log' = milestones session log ∧
          after i s₀ log' = (after i s₀ log).unlink name) ∨
        (milestones session log' = .kept :: milestones session log ∧
          after i s₀ log' = after i s₀ log)) log := by
  refine wp_alone unobserved_true (by rintro _ ⟨⟩) fun r hr => ?_
  obtain ⟨error, rfl, hnext, -⟩ | ⟨n, hn, rfl, hnext⟩ := hr.removeFile
  · exact .inr ⟨rfl, hnext⟩
  · exact .inl ⟨rfl, hnext⟩

theorem wp_drop (hpaths : files.paths = sessionPaths session)
    (hundropped : .kept ∉ milestones session log) :
    (solo i s₀ F fun _ => True).wp () files.drop.run
      (fun _ log' => Drops session (after i s₀ log) (after i s₀ log') (milestones session log)
        (milestones session log')) log := by
  unfold SessionFiles.drop
  rw [hpaths]
  refine wp_ignore_bind.mpr (wp_mono ?_ (wp_dropEntry session))
  intro _ log₁ h₁
  refine wp_ignore_bind.mpr (wp_mono ?_ (wp_dropEntry session))
  intro _ log₂ h₂
  refine wp_lift.mpr (wp_alone unobserved_true (by rintro _ ⟨⟩) fun r hr => ?_)
  have hms : milestones session (⟨.socket (.closeListener files.listener), r⟩ :: log₂) =
      milestones session log₂ := rfl
  -- Closing the listener changes no entry and no bytes.
  have hclose : (after i s₀ (⟨.socket (.closeListener files.listener), r⟩ :: log₂)).dir =
        (after i s₀ log₂).dir ∧
      ∀ n, ((after i s₀ (⟨.socket (.closeListener files.listener), r⟩ :: log₂)).inode n).bytes =
        ((after i s₀ log₂).inode n).bytes := by
    rw [after_cons]
    have heffect := Kernel.next_effect i (after i s₀ log₂) (.socket (.closeListener files.listener)) r
    dsimp only
    generalize (after i s₀ log₂).next i (.socket (.closeListener files.listener)) r = s' at heffect ⊢
    cases heffect with
    | quiet hsame => exact ⟨hsame.dir, fun n => by rw [hsame.inode]⟩
    | close =>
      refine ⟨rfl, fun n => ?_⟩
      simp only [Kernel.modify, update_apply]
      split_ifs with hn
      · rw [hn]
      · rfl
  have hremoved : Drops session (after i s₀ log) (after i s₀ log₂) (milestones session log)
      (milestones session log₂) := by
    have hcons : ∀ {ms : List Milestone} (m : Milestone), m ≠ .kept → (m ∈ .kept :: ms ↔ m ∈ ms) :=
      fun m hm => List.mem_cons.trans (or_iff_right hm)
    obtain ⟨hms₁, hs₁⟩ | ⟨hms₁, hs₁⟩ := h₁
    · obtain ⟨hms₂, hs₂⟩ | ⟨hms₂, hs₂⟩ := h₂
      · rw [hms₂, hms₁, hs₂, hs₁]
        refine ⟨fun name hsocket hlock => ?_, fun n => rfl, fun m _ => Iff.rfl,
          .inl ⟨hundropped, ?_, update_self ..⟩⟩
        · exact (update_of_ne hlock _ _).trans (update_of_ne hsocket _ _)
        · exact (update_of_ne socket_ne_lock _ _).trans (update_self ..)
      · rw [hms₂, hms₁, hs₂, hs₁]
        refine ⟨fun name hsocket _ => update_of_ne hsocket _ _, fun n => rfl, hcons,
          .inr ⟨List.mem_cons_self, .inr ?_⟩⟩
        exact update_of_ne (Ne.symm socket_ne_lock) _ _
    · obtain ⟨hms₂, hs₂⟩ | ⟨hms₂, hs₂⟩ := h₂
      · rw [hms₂, hms₁, hs₂, hs₁]
        refine ⟨fun name _ hlock => update_of_ne hlock _ _, fun n => rfl, hcons,
          .inr ⟨List.mem_cons_self, .inl ?_⟩⟩
        exact update_of_ne socket_ne_lock _ _
      · rw [hms₂, hms₁, hs₂, hs₁]
        refine ⟨fun name _ _ => rfl, fun n => rfl, fun m hm => ?_,
          .inr ⟨List.mem_cons_self, .inl rfl⟩⟩
        exact (hcons m hm).trans (hcons m hm)
  obtain ⟨hrest, hbytes, hothers, hentries⟩ := hremoved
  rw [hms]
  refine ⟨fun name hsocket hlock => ?_, fun n => ?_, hothers, ?_⟩
  · rw [hclose.1, hrest name hsocket hlock]
  · rw [hclose.2, hbytes]
  · rw [hclose.1]
    exact hentries

/-- What a failed start leaves, by its milestones. -/
structure Settles (serde : Serde) (session : SessionId) (s s' : Kernel) (ms : List Milestone) :
    Prop where
  leaves : LeavesNothing serde session s s' ↔
    .traced ∉ ms ∧ .unanswered ∉ ms ∧ .blocking ∉ ms ∧ .kept ∉ ms
  free : .unanswered ∉ ms → .blocking ∉ ms → .kept ∉ ms →
    s'.dir (sessionPaths session).socket = none ∧ s'.dir (sessionPaths session).lock = none ∧
      s'.dir (sessionPaths session).metadata = none

/-- The files of a failed start that were dropped. -/
theorem Failed.settles {serde : Serde} {s s₂ s₃ s' : Kernel} {ms ms' : List Milestone}
    (hused : ∀ name n, s.dir name = some n → n < s.fresh) (htakes : Takes session files s s₂)
    (hfailed : Failed serde session s₂ s₃ ms) (hdrops : Drops session s₃ s' ms ms') :
    Settles serde session s s' ms' := by
  have htrace := hdrops.rest _ trace_ne_socket trace_ne_lock
  have hmetadata := hdrops.rest _ metadata_ne_socket metadata_ne_lock
  have hunanswered := hdrops.others .unanswered (by decide)
  have hblocking := hdrops.others .blocking (by decide)
  -- A live record is still there.
  have hlive : (∃ n, LiveAt serde session n s₃) → ∃ n, LiveAt serde session n s' := by
    rintro ⟨n, hn, hrecord⟩
    refine ⟨n, hmetadata.trans hn, ?_⟩
    rw [hdrops.bytes]
    exact hrecord
  have hnone : .unanswered ∉ ms' → .blocking ∉ ms' →
      s'.dir (sessionPaths session).metadata = none := by
    intro h h'
    rw [hunanswered] at h
    rw [hblocking] at h'
    rw [hmetadata]
    exact (hfailed.record.resolve_right fun hlive => hlive.2.elim h h').1
  have hgone : .kept ∉ ms' → s'.dir (sessionPaths session).socket = none ∧
      s'.dir (sessionPaths session).lock = none :=
    fun h => (hdrops.entries.resolve_right fun hkept => h hkept.1).2
  refine ⟨⟨fun hleaves => ⟨fun h => ?_, fun h => ?_, fun h => ?_, fun h => ?_⟩, ?_⟩, ?_⟩
  · -- The trace that was created is there.
    rw [hdrops.others .traced (by decide)] at h
    obtain ⟨-, n, hle, hn⟩ := hfailed.kept.trace.resolve_left fun hnot => hnot.1 h
    have hlt := hleaves.files _ (.inr (.inr rfl)) n (htrace.trans hn)
    exact absurd (Nat.le_trans htakes.fresh_le hle) (Nat.not_le.mpr hlt)
  · rw [hunanswered] at h
    obtain ⟨n, hn⟩ := hlive (hfailed.record.resolve_left fun hnot => hnot.2.1 h).1
    exact hleaves.record n hn
  · rw [hblocking] at h
    obtain ⟨n, hn⟩ := hlive (hfailed.record.resolve_left fun hnot => hnot.2.2 h).1
    exact hleaves.record n hn
  · -- The socket or the lock that was taken is there.
    obtain hsocket | hlock := (hdrops.entries.resolve_left fun hnot => hnot.1 h).2
    · obtain ⟨n, hle, hn⟩ := htakes.socket
      have hlt := hleaves.files _ (.inl rfl) n (by rw [hsocket, hfailed.kept.socket, hn])
      exact absurd hle (Nat.not_le.mpr hlt)
    · obtain ⟨n, hle, hn⟩ := htakes.lock
      have hlt := hleaves.files _ (.inr (.inl rfl)) n (by rw [hlock, hfailed.kept.lock, hn])
      exact absurd hle (Nat.not_le.mpr hlt)
  · intro h
    refine ⟨?_, ?_⟩
    · rintro name (rfl | rfl | rfl) n hn
      · rw [(hgone h.2.2.2).1] at hn
        cases hn
      · rw [(hgone h.2.2.2).2] at hn
        cases hn
      · rw [hdrops.others .traced (by decide)] at h
        rw [htrace, (hfailed.kept.trace.resolve_right fun hnew => h.1 hnew.1).2] at hn
        obtain hold | hnone := htakes.rest _ trace_ne_socket trace_ne_lock
        · exact hused _ n (hold.symm.trans hn)
        · rw [hnone] at hn
          cases hn
    · rintro n ⟨hn, -⟩
      rw [hnone h.2.1 h.2.2.1] at hn
      cases hn
  · exact fun h h' h'' => ⟨(hgone h'').1, (hgone h'').2, hnone h h'⟩

/-- **The start after the session's taking**: what it leaves when it fails before the event loop. -/
theorem wp_startTaken {config : StartupConfig} {s : Kernel}
    (hused : ∀ name n, s.dir name = some n → n < s.fresh) (htakes : Takes session files s s₀) :
    (solo i s₀ F fun _ => True).wp () (startTaken self session config (R, files)).run
      (fun r log' => ∀ error, r = .error error → .entered ∉ milestones session log' →
        Settles R.serde session s (after i s₀ log') (milestones session log')) [] := by
  have hearly : Early session s₀ (after i s₀ []) (milestones session []) := by
    refine ⟨⟨rfl, rfl, .inl ⟨List.not_mem_nil, rfl⟩, Nat.le_refl _⟩, htakes.record, ?_⟩
    exact fun m hm => absurd hm List.not_mem_nil
  -- Whatever the failure was, the files are dropped.
  have hdrop : ∀ {log : RunnerLog} {error : IoError},
      Failed R.serde session s₀ (after i s₀ log) (milestones session log) →
        (solo i s₀ F fun _ => True).wp () (ExceptT.run (do
            files.drop
            throw error : Io Unit))
          (fun r log' => ∀ error, r = .error error → .entered ∉ milestones session log' →
            Settles R.serde session s (after i s₀ log') (milestones session log')) log := by
    intro log error hfailed
    have hsettles : ∀ (r : Except IoError Unit) (log' : RunnerLog),
        Drops session (after i s₀ log) (after i s₀ log') (milestones session log)
          (milestones session log') → ∀ error, r = .error error →
            .entered ∉ milestones session log' →
              Settles R.serde session s (after i s₀ log') (milestones session log') :=
      fun r log' hdrops _ _ _ => hfailed.settles hused htakes hdrops
    refine wp_seq _ (wp_drop htakes.paths hfailed.undropped) (fun _ log' h => ?_) fun _ log' h => ?_
    · exact wp_ret.mpr (hsettles _ log' h)
    · exact hsettles _ log' h
  refine wp_attempt_bind.mpr (wp_mono ?_ (wp_prepareRunner htakes.paths hearly))
  rintro (error | ⟨ctx, trace⟩) log₁ h₁
  · exact hdrop (h₁.failed error rfl)
  obtain ⟨hfiles, n, hstarted⟩ := h₁.started _ rfl
  refine wp_attempt_bind.mpr (wp_recorded fun r _ => ⟨trivial, ?_⟩)
  have hspared : Presence.Spared n (after i s₀ log₁)
      (after i s₀ (⟨.process .setPtyNonblocking, r⟩ :: log₁)) :=
    .process .setPtyNonblocking r
  have hstarted' := hstarted.spared hspared
  obtain error | _ := r
  · -- The terminal stays blocking: everything the runner holds is dropped.
    have hfailed : Failed R.serde session s₀
        (after i s₀ (⟨.process .setPtyNonblocking, .error error⟩ :: log₁))
        (milestones session (⟨.process .setPtyNonblocking, .error error⟩ :: log₁)) :=
      hstarted'.failed (.inr rfl)
    refine wp_lift_bind.mpr (wp_mono ?_ (wp_failed hfailed fun n => .perform trivial))
    intro _ log₂ h₂
    rw [hfiles]
    exact hdrop h₂
  · -- The event loop is entered.
    refine wp_mono ?_ (wp_extends (wp_anything _))
    intro r log' h error _ hentered
    exact absurd (mem_milestones_of_suffix h.2 List.mem_cons_self) hentered

end steps

/-- A start that takes its session and then fails before the event loop. -/
theorem settles {i : Proc} {s₀ : Kernel} {F : Faults} {serde : Serde} {self : Self}
    {session : SessionId} {config : StartupConfig} {log₁ log₂ : RunnerLog}
    {taken : Registry × SessionFiles} {error : IoError} (hF : F.Honest)
    (hused : ∀ name n, s₀.dir name = some n → n < s₀.fresh)
    (htake : Runs (alone i s₀ F) (takeSession serde self session).run log₁ (.ret (.ok taken)))
    (hstart : Runs (alone i (after i s₀ log₁) F) (startTaken self session config taken).run log₂
      (.ret (.error error)))
    (hentered : .entered ∉ milestones session log₂) :
    Settles serde session s₀ (after i (after i s₀ log₁) log₂) (milestones session log₂) := by
  have hR : Registry.Of ⟨[], self.uid, serde⟩ serde self := ⟨rfl, rfl⟩
  obtain ⟨-, htaken⟩ := log_sound trivial (wp_takeSession unobserved_true hF hR) htake
  obtain ⟨hof, htakes, -⟩ := (htaken _ rfl).1 taken rfl
  rcases taken with ⟨R, files⟩
  obtain ⟨-, hsettles⟩ := log_sound trivial (wp_startTaken hused htakes) hstart
  have hserde : R.serde = serde := hof.2
  rw [← hserde]
  exact hsettles _ rfl error rfl hentered

end Failure

/-- **What a failed start leaves**: a process that runs alone takes a session, and fails before the
event loop; any call may fail. Then nothing remains exactly when no trace was created, the launcher
could be answered, the terminal could be made non-blocking, and the socket and the lock could be
removed. Without the trace the names of the session are free again. -/
theorem start_leaves_nothing (i : Proc) (s₀ : Kernel) (F : Faults) (serde : Serde) (self : Self)
    (session : SessionId) (config : StartupConfig) (log₁ log₂ : RunnerLog)
    (taken : Registry × SessionFiles) (error : IoError) (hF : F.Honest)
    (hused : ∀ name n, s₀.dir name = some n → n < s₀.fresh)
    (htake : Runs (alone i s₀ F) (takeSession serde self session).run log₁ (.ret (.ok taken)))
    (hstart : Runs (alone i (after i s₀ log₁) F) (startTaken self session config taken).run log₂
      (.ret (.error error)))
    (hentered : .entered ∉ milestones session log₂) :
    startRunner serde self session config =
        takeSession serde self session >>= startTaken self session config ∧
      (LeavesNothing serde session s₀ (after i (after i s₀ log₁) log₂) ↔
        .traced ∉ milestones session log₂ ∧ .unanswered ∉ milestones session log₂ ∧
          .blocking ∉ milestones session log₂ ∧ .kept ∉ milestones session log₂) ∧
      (.unanswered ∉ milestones session log₂ → .blocking ∉ milestones session log₂ →
        .kept ∉ milestones session log₂ → ∀ name, name = (sessionPaths session).socket ∨
          name = (sessionPaths session).lock ∨ name = (sessionPaths session).metadata →
            (after i (after i s₀ log₁) log₂).dir name = none) := by
  have hsettles := Failure.settles hF hused htake hstart hentered
  refine ⟨startRunner_eq serde self session config, hsettles.leaves, ?_⟩
  intro hunanswered hblocking hkept name hname
  obtain ⟨hsocket, hlock, hmetadata⟩ := hsettles.free hunanswered hblocking hkept
  obtain rfl | rfl | rfl := hname
  · exact hsocket
  · exact hlock
  · exact hmetadata

/-! ## Three starts -/

namespace Failure

open Presence (self session)

def config (trace : Bool) : StartupConfig := ⟨trace, [ascii "/bin/true"], 24, 80⟩

/-- Too many open files. -/
def noDescriptor : IoError := IoError.os .other 24

/-- No descriptor is left when the terminal is to be created. -/
def exhausted : Scene := { ptys := [.error noDescriptor] }

theorem exhausted_plain : exhausted.Plain := by constructor <;> decide

theorem empty_plain : Scene.Plain {} := by constructor <;> decide

/-- The play of a start in a scene: the taken session, and the logs of the two halves of a start
that fails. -/
def plays (scene : Scene) (s₀ : Kernel) (config : StartupConfig) :
    Option ((Registry × SessionFiles) × IoError × RunnerLog × RunnerLog) := do
  let (r, scene, stage, log₁) ← (takeSession jsonSerde self session).run.run
    (Kernel.Played.outside (.runner 0)) (scene, (s₀, []), [])
  let taken ← r.toOption
  let (r', _, _, log₂) ← (startTaken self session config taken).run.run
    (Kernel.Played.outside (.runner 0)) (scene, stage, [])
  let error ← errorOf r'
  return (taken, error, log₁, log₂)

/-- What is played is a failed start. -/
theorem runs_plays {scene : Scene} {s₀ : Kernel} {config : StartupConfig}
    {taken : Registry × SessionFiles} {error : IoError} {log₁ log₂ : RunnerLog}
    (hcovers : Kernel.Stage.Covers (s₀, []) (.runner 0)) (hscene : scene.Plain)
    (h : plays scene s₀ config = some (taken, error, log₁, log₂)) :
    Runs (alone (.runner 0) s₀ .none) (takeSession jsonSerde self session).run log₁
        (.ret (.ok taken)) ∧
      Runs (alone (.runner 0) (after (.runner 0) s₀ log₁) .none)
        (startTaken self session config taken).run log₂ (.ret (.error error)) := by
  simp only [plays, Option.bind_eq_bind, Option.bind_eq_some_iff, Prod.exists, Option.pure_def,
    Option.some.injEq, Prod.mk.injEq] at h
  obtain ⟨r, scene₁, s₁, names₁, log₁', htake, R, files, hok, r', scene₂, s₂, names₂, log₂', hstart,
    error', herror, rfl, rfl, rfl, rfl⟩ := h
  obtain rfl : r = .ok (R, files) := by
    cases r with
    | ok pair => exact congrArg Except.ok (Option.some.inj hok)
    | error error => cases hok
  obtain rfl := Kernel.errorOf_eq_some.mp herror
  obtain ⟨htook, hstate, hcovers₁, hscene₁⟩ := runs_played hcovers hscene htake
  obtain ⟨hstarted, -⟩ := runs_played hcovers₁ hscene₁ hstart
  dsimp only at hstate
  rw [← hstate] at hstarted
  exact ⟨htook, hstarted⟩

/-- An empty directory; the launcher is gone. -/
def unattended : Kernel := { Kernel.stocked 0 100 [] with killed := fun i => i = .caller 0 }

theorem unattended_covers : Kernel.Stage.Covers (unattended, []) (.runner 0) where
  entries name h := by cases h
  startup _ _ := rfl
  response _ _ := rfl

theorem plays_traced : (plays exhausted (.stocked 0 100 []) (config true)).any (fun played =>
    decide (played.2.1 = noDescriptor ∧ milestones session played.2.2.2 = [.traced])) = true := by decide +kernel

theorem plays_unattended : (plays {} unattended (config false)).any (fun played =>
    decide (milestones session played.2.2.2 = [.unanswered])) = true := by decide +kernel

theorem plays_plain : (plays exhausted (.stocked 0 100 []) (config false)).any (fun played =>
    decide (played.2.1 = noDescriptor ∧ milestones session played.2.2.2 = [])) = true := by decide +kernel

end Failure

open Failure Presence in
/-- A start that was to be traced, and finds no descriptor for its terminal, leaves its trace; and
one whose launcher is gone leaves its live record. -/
theorem start_leaves_something :
    (∃ log₁ log₂ taken,
      Runs (alone (.runner 0) (.stocked 0 100 []) .none)
          (takeSession jsonSerde Presence.self Presence.session).run log₁ (.ret (.ok taken)) ∧
        Runs (alone (.runner 0) (after (.runner 0) (.stocked 0 100 []) log₁) .none)
          (startTaken Presence.self Presence.session (Failure.config true) taken).run log₂
            (.ret (.error noDescriptor)) ∧
        .entered ∉ milestones Presence.session log₂ ∧
        ¬ LeavesNothing jsonSerde Presence.session (.stocked 0 100 [])
          (after (.runner 0) (after (.runner 0) (.stocked 0 100 []) log₁) log₂)) ∧
    ∃ log₁ log₂ taken error,
      Runs (alone (.runner 0) unattended .none)
          (takeSession jsonSerde Presence.self Presence.session).run log₁ (.ret (.ok taken)) ∧
        Runs (alone (.runner 0) (after (.runner 0) unattended log₁) .none)
          (startTaken Presence.self Presence.session (Failure.config false) taken).run
            log₂ (.ret (.error error)) ∧
        .entered ∉ milestones Presence.session log₂ ∧
        ¬ LeavesNothing jsonSerde Presence.session unattended
          (after (.runner 0) (after (.runner 0) unattended log₁) log₂) := by
  refine ⟨?_, ?_⟩
  · obtain ⟨⟨taken, error, log₁, log₂⟩, hplays, hms⟩ := (Option.any_eq_true _ _).mp plays_traced
    obtain ⟨rfl, hms'⟩ : error = noDescriptor ∧ milestones Presence.session log₂ = [.traced] :=
      of_decide_eq_true hms
    obtain ⟨htake, hstart⟩ := runs_plays Kernel.stocked_covers exhausted_plain hplays
    have hentered : .entered ∉ milestones Presence.session log₂ := by
      rw [hms']
      decide
    have hsettles := settles Faults.honest_none (by rintro name n ⟨⟩) htake hstart hentered
    refine ⟨log₁, log₂, taken, htake, hstart, hentered, fun hleaves => ?_⟩
    apply (hsettles.leaves.mp hleaves).1
    rw [hms']
    exact List.mem_cons_self
  · obtain ⟨⟨taken, error, log₁, log₂⟩, hplays, hms⟩ := (Option.any_eq_true _ _).mp plays_unattended
    have hms' : milestones Presence.session log₂ = [.unanswered] := of_decide_eq_true hms
    obtain ⟨htake, hstart⟩ := runs_plays unattended_covers empty_plain hplays
    have hentered : .entered ∉ milestones Presence.session log₂ := by
      rw [hms']
      decide
    have hsettles := settles Faults.honest_none (by rintro name n ⟨⟩) htake hstart hentered
    refine ⟨log₁, log₂, taken, error, htake, hstart, hentered, fun hleaves => ?_⟩
    apply (hsettles.leaves.mp hleaves).2.1
    rw [hms']
    exact List.mem_cons_self

open Failure in
/-- A start without a trace that finds no descriptor for its terminal leaves nothing. -/
theorem start_leaves_nothing_plain : ∃ log₁ log₂ taken,
    Runs (alone (.runner 0) (.stocked 0 100 []) .none)
        (takeSession jsonSerde Presence.self Presence.session).run log₁ (.ret (.ok taken)) ∧
      Runs (alone (.runner 0) (after (.runner 0) (.stocked 0 100 []) log₁) .none)
        (startTaken Presence.self Presence.session (config false) taken).run log₂
          (.ret (.error noDescriptor)) ∧
      LeavesNothing jsonSerde Presence.session (.stocked 0 100 [])
        (after (.runner 0) (after (.runner 0) (.stocked 0 100 []) log₁) log₂) := by
  obtain ⟨⟨taken, error, log₁, log₂⟩, hplays, hms⟩ := (Option.any_eq_true _ _).mp plays_plain
  obtain ⟨rfl, hms'⟩ : error = noDescriptor ∧ milestones Presence.session log₂ = [] :=
    of_decide_eq_true hms
  have hnone : ∀ m, m ∉ milestones Presence.session log₂ := by
    intro m
    rw [hms']
    exact List.not_mem_nil
  obtain ⟨htake, hstart⟩ := runs_plays Kernel.stocked_covers exhausted_plain hplays
  refine ⟨log₁, log₂, taken, htake, hstart, ?_⟩
  have hleaves := (start_leaves_nothing (.runner 0) (.stocked 0 100 []) .none jsonSerde
    Presence.self Presence.session (config false) log₁ log₂ taken noDescriptor Faults.honest_none
    (by rintro name n ⟨⟩) htake hstart (hnone _)).2.1
  exact hleaves.mpr ⟨hnone _, hnone _, hnone _, hnone _⟩

end AfkCli
