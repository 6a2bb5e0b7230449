import AfkCli.Failure

/-!
# Conflicts

When `session exists` is said at the start of a session: the runner answers it where an error says
that something exists, whatever exists. Nothing else runs, and calls may fail.

## Main definitions

* `Leftover`: what other processes left that a start takes for the session
* `Excused`: the session is in use, or something is left
* `besides`: the answers its launcher gets while a runner runs

## Main results

* `wp_prepareConflict`, `wp_hiddenRunner`: the steps
* `conflict_excused`: a launcher is told that the session exists only if it is in use, or something
  is left
-/

namespace AfkCli

open Interaction Discipline Function Alone

/-! ## What is left -/

/-- The configuration that the runner is sent asks for a trace. -/
def AsksTrace (n : Nat) (s : Kernel) : Prop :=
  ∃ bytes config, s.startup n = some bytes ∧ readStartupConfig bytes = .ok config ∧
    config.trace = true

/-- What other processes left that makes a start fail because it exists. -/
inductive Leftover (R : Registry) (self : Self) (session : SessionId) (n : Nat) (s : Kernel)
    (log : RunnerLog) : Prop
  /-- an expired record next to a socket or a lock -/
  | overdue (h : Overdue R session s log)
  /-- a trace file and nothing else, where a trace is asked for -/
  | trace (hasks : AsksTrace n s) (h : TraceLeft session s)
  /-- a temporary file of a process with the runner's number -/
  | temporary (h : (s.dir (temporaryName (sessionPaths session).metadata self.pid)).isSome)

/-- The session is in use, or something is left. -/
def Excused (R : Registry) (self : Self) (session : SessionId) (n : Nat) (s : Kernel)
    (log : RunnerLog) : Prop :=
  Held R session s log ∨ Leftover R self session n s log

theorem Excused.mono {R : Registry} {self : Self} {session : SessionId} {n : Nat} {s : Kernel}
    {log log' : RunnerLog} (h : Excused R self session n s log) (hlog : log <:+ log') :
    Excused R self session n s log' := by
  obtain hheld | ⟨⟨⟨⟨metadata, now, hrecord, hnow, hexpired⟩, hplace⟩, now', names, hopened, hunswept⟩⟩ |
    ⟨hasks, hleft⟩ | hleft := h
  · exact .inl (hheld.mono hlog)
  · refine .inr (.overdue ⟨⟨⟨metadata, now, hrecord, hlog.subset hnow, hexpired⟩, hplace⟩, now', names,
      ⟨hlog.subset hopened.1, hlog.subset hopened.2⟩, hunswept⟩)
  · exact .inr (.trace hasks hleft)
  · exact .inr (.temporary hleft)

/-! ## The answer to the launcher -/

namespace Kernel

theorem response_file {i : Proc} {s : Kernel} (call : FileCall) (outside : call.Answer) :
    (s.fileStep i call outside).2.response = s.response := by
  cases call <;> simp only [fileStep] <;> repeat' split
  all_goals rfl

theorem response_socket {i : Proc} {s : Kernel} (call : SocketCall) (outside : call.Answer) :
    (s.socketStep i call outside).2.response = s.response := by
  cases call <;> simp only [socketStep] <;> repeat' split
  all_goals rfl

theorem response_process {i : Proc} {s s' : Kernel} {call : ProcessCall} {outside r : call.Answer}
    (hcall : ∀ response, call ≠ .sendResponse response)
    (h : s.processStep i call outside = some (r, s')) : s'.response = s.response := by
  cases call <;> simp only [processStep] at h <;> repeat' split at h
  all_goals
    simp only [Option.some.injEq, Prod.mk.injEq, reduceCtorEq] at h
    try obtain ⟨-, rfl⟩ := h
    try rfl
  exact absurd rfl (hcall _)

/-- Only an answer of the runner changes what its launcher is told. -/
theorem response_next {i : Proc} {s : Kernel} {op : Call} (r : op.Answer)
    (hop : ∀ response, op ≠ .process (.sendResponse response)) :
    (s.next i op r).response = s.response := by
  unfold next
  split
  · rfl
  · split
    · rfl
    · split
      · rename_i s' hstep
        cases op with
        | file call =>
          obtain rfl : _ = s' := congrArg Prod.snd (step_file hstep)
          exact response_file call r
        | socket call =>
          obtain rfl : _ = s' := congrArg Prod.snd (step_socket hstep)
          exact response_socket call r
        | process call =>
          exact response_process (fun response h => hop response (congrArg Call.process h)) hstep
        | terminal call => exact congrArg response (step_terminal hstep).2.symm
        | note note => exact congrArg response (step_note hstep).symm
      · rfl

/-- An answer of the runner, where its launcher is there. -/
theorem next_sendResponse {n : Nat} {s : Kernel} {response : UInt8} :
    s.next (.runner n) (.process (.sendResponse response)) (.ok ()) =
      if s.killed (.caller n) then s
      else { s with response := update s.response n (some ((s.response n).getD response)) } := by
  have hnext : s.next (.runner n) (.process (.sendResponse response)) (.ok ()) =
      ((s.processStep (.runner n) (.sendResponse response) (.ok ())).map Prod.snd).getD s := by
    unfold next
    simp only [Call.error?, ProcessCall.error?, errorOf, Option.isSome_none, Bool.false_eq_true,
      if_false, step]
    cases s.processStep (.runner n) (.sendResponse response) (.ok ()) <;> rfl
  rw [hnext]
  simp only [processStep]
  split_ifs <;> rfl

/-- The launcher is told the first answer. -/
theorem response_send {n : Nat} {s : Kernel} {response : UInt8} (r : Except IoError Unit) :
    (s.next (.runner n) (.process (.sendResponse response)) r).response n = s.response n ∨
      (s.next (.runner n) (.process (.sendResponse response)) r).response n =
        some ((s.response n).getD response) := by
  obtain error | _ := r
  · exact .inl rfl
  · rw [next_sendResponse]
    split_ifs
    · exact .inl rfl
    · exact .inr (update_self ..)

/-- An answer that was sent is what the launcher is told, if it is the first. -/
theorem response_sent {n : Nat} {s : Kernel} {F : Faults} {response : UInt8}
    (h : s.Admits (.runner n) F (.process (.sendResponse response)) (.ok ()))
    (hnone : s.response n = none) :
    (s.next (.runner n) (.process (.sendResponse response)) (.ok ())).response n = some response := by
  obtain ⟨s', hs'⟩ | ⟨error, herror, -⟩ := h.answered
  · have hstep : s.processStep (.runner n) (.sendResponse response) (.ok ()) = some (.ok (), s') := hs'
    rw [next_sendResponse]
    simp only [processStep] at hstep
    split_ifs at hstep ⊢
    · cases hstep
    · show update _ _ _ _ = _
      rw [update_self, hnone]
      rfl
  · cases herror

end Kernel

namespace Conflict

/-! ### What is kept -/

/-- The launcher has been told nothing. -/
def Untold (n : Nat) (s₀ : Kernel) (log : RunnerLog) : Prop :=
  (after (.runner n) s₀ log).response n = none

/-- The launcher has been told that the runner is ready. -/
def ToldReady (n : Nat) (s₀ : Kernel) (log : RunnerLog) : Prop :=
  (after (.runner n) s₀ log).response n = some startupReady

/-- If the launcher has been told that the session exists, there is an excuse. -/
def Truthful (excuse : RunnerLog → Prop) (n : Nat) (s₀ : Kernel) (log : RunnerLog) : Prop :=
  (after (.runner n) s₀ log).response n = some startupExists → excuse log

/-- An excuse that stays one. -/
def Lasting (excuse : RunnerLog → Prop) : Prop := ∀ log log', excuse log → log <:+ log' → excuse log'

section kept

variable {excuse : RunnerLog → Prop} {n : Nat} {s₀ : Kernel} {F : Faults} {log : RunnerLog}

theorem unobserved_untold : Unobserved (Untold n s₀) := by
  intro op r log hop h
  show (Kernel.next _ _ op r).response n = none
  rw [Kernel.response_next r hop]
  exact h

theorem Untold.truthful (h : Untold n s₀ log) : Truthful excuse n s₀ log := by
  intro hexists
  rw [h] at hexists
  cases hexists

theorem ToldReady.truthful (h : ToldReady n s₀ log) : Truthful excuse n s₀ log := by
  intro hexists
  rw [h] at hexists
  exact absurd (Option.some.inj hexists) (by decide)

/-- What the launcher was told does not change. -/
theorem response_kept {response : UInt8}
    (h : (after (.runner n) s₀ log).response n = some response) (op : Call) (r : op.Answer) :
    (after (.runner n) s₀ (⟨op, r⟩ :: log)).response n = some response := by
  by_cases hop : ∀ response, op ≠ .process (.sendResponse response)
  · rw [after_cons, Kernel.response_next r hop, h]
  · obtain ⟨response', rfl⟩ : ∃ response', op = .process (.sendResponse response') := by
      simpa using hop
    obtain hsame | hfirst := Kernel.response_send (n := n) (s := after (.runner n) s₀ log) r
    · exact hsame.trans h
    · rw [h] at hfirst
      exact hfirst

theorem unobserved_truthful (hlasting : Lasting excuse) : Unobserved (Truthful excuse n s₀) := by
  intro op r log hop h hexists
  rw [after_cons, Kernel.response_next r hop] at hexists
  exact hlasting _ _ (h hexists) (List.suffix_cons _ _)

/-- The runner answers truthfully that something exists. -/
theorem Truthful.send {response : UInt8} (hlasting : Lasting excuse) (h : Truthful excuse n s₀ log)
    (hresponse : response = startupExists → ToldReady n s₀ log ∨ excuse log)
    (r : Except IoError Unit) :
    Truthful excuse n s₀ (⟨.process (.sendResponse response), r⟩ :: log) := by
  intro hexists
  have hsuffix : log <:+ (⟨.process (.sendResponse response), r⟩ :: log : RunnerLog) :=
    List.suffix_cons _ _
  cases hbefore : (after (.runner n) s₀ log).response n with
  | some response' =>
    have hkept := response_kept hbefore (.process (.sendResponse response)) r
    rw [hexists] at hkept
    exact hlasting _ _ (h (hbefore.trans hkept.symm)) hsuffix
  | none =>
    -- This is the first answer.
    have hfirst : some startupExists = some response := by
      obtain hsame | hfirst : (Kernel.next _ _ (.process (.sendResponse response)) r).response n = _ ∨
          (Kernel.next _ _ (.process (.sendResponse response)) r).response n = _ :=
        Kernel.response_send r
      · rw [after_cons, hsame, hbefore] at hexists
        cases hexists
      · rw [after_cons, hfirst, hbefore] at hexists
        exact hexists.symm
    obtain hready | hexcused := hresponse (Option.some.inj hfirst).symm
    · rw [hready] at hbefore
      cases hbefore
    · exact hlasting _ _ hexcused hsuffix

/-- Once the launcher knows that the runner is ready, nothing matters. -/
theorem wp_ready {α : Type} (h : ToldReady n s₀ log) (p : Prog α) :
    (solo (.runner n) s₀ F (Truthful excuse n s₀)).wp () p
      (fun _ log' => ToldReady n s₀ log') log := by
  refine wp_mono (fun _ _ h => h.2) (wp_quiet (P := ToldReady n s₀) p.within_true ?_ h)
  intro op r log _ hready
  have hready' : ToldReady n s₀ (⟨op, r⟩ :: log) := response_kept hready op r
  exact ⟨hready'.truthful, hready'⟩

/-- A part of the runner before the first answer. -/
theorem wp_before {α β : Type} {p : Io α} {f : α → Io β} {P : Except IoError α → RunnerLog → Prop}
    {Q : Except IoError β → RunnerLog → Prop} (hlog : Untold n s₀ log)
    (hp : (solo (.runner n) s₀ F (Untold n s₀)).wp () p.run P log)
    (hok : ∀ a log', P (.ok a) log' → Untold n s₀ log' →
      (solo (.runner n) s₀ F (Truthful excuse n s₀)).wp () (f a).run Q log')
    (herror : ∀ error log', P (.error error) log' → Untold n s₀ log' → Q (.error error) log') :
    (solo (.runner n) s₀ F (Truthful excuse n s₀)).wp () (p >>= f).run Q log :=
  wp_seq _ (wp_strengthen (fun _ h => h.truthful) hlog hp) (fun a log' h => hok a log' h.1 h.2)
    fun error log' h => herror error log' h.1 h.2

end kept

/-! ### Programs that create nothing -/

/-- The call did not fail because something exists. -/
def PlainAnswer (op : Call) (r : op.Answer) : Prop :=
  ∀ error, op.error? r = some error → error.kind ≠ .alreadyExists

/-- The calls that create nothing, and leave the inode `m` alone. -/
def Mild (m : Nat) (op : Call) : Prop := Presence.Spares m op ∧ ¬ op.Creates

/-- The program makes only calls in `ops`; what it returns is in `Q`, and its errors do not say that
something exists when those of its calls do not. -/
def Plainly {α : Type} (ops : Call → Prop) (Q : α → Prop) (p : Io α) : Prop :=
  p.run.Within PlainAnswer ops fun r =>
    (∀ a, r = .ok a → Q a) ∧ ∀ error, r = .error error → error.kind ≠ .alreadyExists

section plainly

variable {α β : Type} {ops : Call → Prop} {P Q : α → Prop} {R : β → Prop}

theorem Plainly.pure {a : α} (h : Q a) : Plainly ops Q (Pure.pure a : Io α) := by
  refine ⟨?_, by rintro _ ⟨⟩⟩
  rintro _ ⟨⟩
  exact h

theorem Plainly.throw {error : IoError} (h : error.kind ≠ .alreadyExists) :
    Plainly ops Q (MonadExcept.throw error : Io α) := by
  refine ⟨by rintro _ ⟨⟩, ?_⟩
  rintro _ ⟨⟩
  exact h

theorem Plainly.bind {p : Io α} {f : α → Io β} (hp : Plainly ops P p)
    (hf : ∀ a, P a → Plainly ops R (f a)) : Plainly ops R (p >>= f) := by
  rw [Plainly, run_bind]
  refine Program.Within.bind hp fun r hr => ?_
  cases r with
  | ok a => exact hf a (hr.1 a rfl)
  | error error => exact Plainly.throw (hr.2 error rfl)

theorem Plainly.lift_bind {p : Prog α} {f : α → Io β} (hp : p.Within (fun _ _ => True) ops P)
    (hf : ∀ a, P a → Plainly ops R (f a)) : Plainly ops R ((liftM p : Io α) >>= f) := by
  rw [Plainly, run_lift_bind]
  exact Program.Within.bind (hp.mono (fun _ _ _ => trivial) (fun _ => id) fun _ => id) hf

theorem Plainly.lift {p : Prog α} (hp : p.Within (fun _ _ => True) ops P) :
    Plainly ops P (liftM p : Io α) := by
  rw [Plainly, run_lift]
  refine Program.Within.bind (hp.mono (fun _ _ _ => trivial) (fun _ => id) fun _ => id) fun a ha => ?_
  exact Plainly.pure ha

theorem Plainly.ask {p : Prog (Except IoError α)} (hp : p.Within PlainAnswer ops fun r =>
    ∀ error, r = .error error → error.kind ≠ .alreadyExists) :
    Plainly ops (fun _ => True) (AfkCli.ask p) :=
  Program.Within.mono hp (fun _ _ => id) (fun _ => id) fun _ h => ⟨fun _ _ => trivial, h⟩

end plainly

section wps

variable {R : Registry} {self : Self} {session : SessionId} {n m : Nat} {s₀ : Kernel} {F : Faults}
  {log : RunnerLog}

/-- A program that leaves the entries alone, before the first answer. -/
theorem wp_plainly {α : Type} {q : α → Prop} {p : Prog α}
    (hp : p.Within PlainAnswer (Mild m) q) :
    (solo (.runner n) s₀ F (Untold n s₀)).wp () p
      (fun a log' => q a ∧ Presence.Spared m (after (.runner n) s₀ log) (after (.runner n) s₀ log'))
      log := by
  induction p generalizing log with
  | ret a => exact ⟨hp, .refl _ _⟩
  | spin => exact trivial
  | call op k ih =>
    have hop : ∀ response, op ≠ .process (.sendResponse response) := by
      rintro response rfl
      exact hp.1.1
    show (solo (.runner n) s₀ F (Untold n s₀)).wp () ((Program.perform op).bind k) _ _
    refine wp_bind.mpr (wp_alone unobserved_untold hop fun r hr => ?_)
    have hplain : PlainAnswer op r := fun error herror hkind =>
      hp.1.2 (hr.creates error herror hkind)
    refine wp_mono (fun _ log' h => ⟨h.1, ?_⟩) (ih r (hp.2 r hplain))
    exact (Presence.Spared.next (s := after (.runner n) s₀ log) r hp.1.1).trans h.2

theorem excused_lasting : Lasting (Excused R self session n s₀) := fun _ _ h hlog => h.mono hlog

theorem takes_mild {trace : Option Trace} (h : Presence.Apart m trace) : TakesTrace (Mild m) trace :=
  ⟨⟨trivial, id⟩, fun t ht _ => ⟨h t ht, id⟩⟩

theorem plainly_createPty {rows columns : UInt16} :
    Plainly (Mild m) (fun _ => True) (createPty rows columns) := by
  have hcheck : Plainly (Mild m) (fun _ => True) (validateDimensions rows columns) := by
    unfold validateDimensions
    split_ifs
    · exact .pure trivial
    · exact .throw (by decide)
  refine .bind hcheck fun _ _ => .ask ⟨⟨trivial, id⟩, fun r hr error he => hr error ?_⟩
  rw [he]
  rfl

theorem plainly_spawnChild {config : StartupConfig} {trace : Option Trace}
    (h : Presence.Apart m trace) :
    Plainly (Mild m) (fun spawned => SameFile trace spawned.1) (spawnChild self config trace) := by
  have hcommand : Calls (Mild m) (startCommand self config) := by
    unfold startCommand
    split_ifs
    · refine .bind ?_ fun _ => .ret _
      unfold defaultShell
      split
      · exact .bind (.perform ⟨trivial, id⟩) fun _ => .ret _
      · exact .ret _
    · exact .ret _
  refine .lift_bind hcommand fun command _ => ?_
  refine .bind (.ask ⟨⟨trivial, id⟩, fun r hr error he => hr error ?_⟩) fun _ _ => ?_
  · rw [he]
    rfl
  refine .bind (.ask ⟨⟨trivial, id⟩, fun r hr error he => hr error ?_⟩) fun _ _ => ?_
  · rw [he]
    rfl
  refine .bind (.ask ⟨⟨trivial, id⟩, fun r hr error he => hr error ?_⟩) fun _ _ => ?_
  · rw [he]
    rfl
  refine .lift_bind (within_traceEvent (takes_mild h) _) fun trace' htrace' => ?_
  refine .bind (.ask ⟨⟨trivial, id⟩, fun r hr error he => hr error ?_⟩) fun _ _ => ?_
  · rw [he]
    rfl
  exact .lift_bind (P := fun _ => True) (Calls.perform ⟨trivial, id⟩) fun _ _ => .pure htrace'

theorem apart_of_below {trace : Option Trace} {s : Kernel} (h : Presence.Below trace s) :
    Presence.Apart s.fresh trace := fun t ht => Nat.ne_of_lt (h t ht)

/-- The trace is created, or there was one. -/
theorem wp_openTrace (hF : F.Honest) {name : Name} {enabled : Bool} {component : String} :
    (solo (.runner n) s₀ F (Untold n s₀)).wp ()
      (ExceptT.run (if enabled then some <$> Trace.create self name component else pure none : Io _))
      (fun r log' =>
        (∀ error, r = .error error → error.kind = .alreadyExists →
          enabled = true ∧ ((after (.runner n) s₀ log).dir name).isSome) ∧
        (∀ trace, r = .ok trace → Presence.Below trace (after (.runner n) s₀ log')) ∧
        ∀ other, other ≠ name →
          (after (.runner n) s₀ log').dir other = (after (.runner n) s₀ log).dir other) log := by
  split_ifs with henabled
  · rw [map_eq_pure_bind, Trace.create, bind_assoc]
    refine wp_io_bind.mpr (wp_alone unobserved_untold (by rintro _ ⟨⟩) fun r hr => ?_)
    obtain ⟨error, rfl, hnext, hcause⟩ | ⟨-, rfl, hnext⟩ := hr.createNew
    · refine wp_ret.mpr ⟨?_, by rintro _ ⟨⟩, fun other _ => ?_⟩
      · rintro _ ⟨⟩ hkind
        exact ⟨henabled, hcause.elim (fun hfault => absurd hkind (hF _ _ hfault).2) And.right⟩
      · rw [after_cons, hnext]
    · have hnext' : after (.runner n) s₀ (⟨.file (.createNew name 0o600),
          .ok (after (.runner n) s₀ log).fresh⟩ :: log) =
            (after (.runner n) s₀ log).create name
              ((after (.runner n) s₀ log).newFile (.runner n) 0o600) := hnext
      have hbelow : Presence.Below
          (some { file := (after (.runner n) s₀ log).fresh, component, written := 0 })
          (after (.runner n) s₀ (⟨.file (.createNew name 0o600),
            .ok (after (.runner n) s₀ log).fresh⟩ :: log)) := by
        rintro _ ⟨⟩
        rw [hnext']
        exact Nat.lt_succ_self _
      refine wp_lift_bind.mpr (wp_mono ?_ (wp_plainly
        ((within_traceWrite (takes_mild (apart_of_below hbelow)) _ _).mono
          (fun _ _ _ => trivial) (fun _ => id) fun _ => id)))
      rintro trace' log' ⟨hfile, hspared⟩
      refine wp_ret.mpr ⟨by rintro _ ⟨⟩, ?_, fun other hother => ?_⟩
      · rintro _ ⟨⟩
        exact hbelow.spared (congrArg some hfile) hspared
      · rw [hspared.dir, hnext']
        exact update_of_ne hother _ _
  · refine wp_ret.mpr ⟨by rintro _ ⟨⟩, ?_, fun _ _ => rfl⟩
    rintro _ ⟨⟩ t ⟨⟩

/-- What the preparation reports: that something exists where a trace or a temporary file was left,
and that the runner is ready. -/
structure Reports {α : Type} (pid : UInt32) (session : SessionId) (config : StartupConfig) (n : Nat)
    (s₀ : Kernel) (log' : RunnerLog) (r : Except IoError α) : Prop where
  exist : ∀ error, r = .error error → error.kind = .alreadyExists →
    (config.trace = true ∧ TraceLeft session s₀) ∨
      (s₀.dir (temporaryName (sessionPaths session).metadata pid)).isSome
  ready : ∀ a, r = .ok a → ToldReady n s₀ log'

theorem Reports.plain {α : Type} {config : StartupConfig} {log' : RunnerLog} {error : IoError}
    (h : error.kind ≠ .alreadyExists) :
    Reports self.pid session config n s₀ log' (.error error : Except IoError α) := by
  refine ⟨?_, by rintro _ ⟨⟩⟩
  rintro _ ⟨⟩ hkind
  exact absurd hkind h

theorem wp_prepareConflict {registry : Registry} {files : SessionFiles} {config : StartupConfig}
    (hF : F.Honest) (hpaths : files.paths = sessionPaths session) (hlog : Untold n s₀ log)
    (htemporary : ((after (.runner n) s₀ log).dir
        (temporaryName (sessionPaths session).metadata self.pid)).isSome →
      (s₀.dir (temporaryName (sessionPaths session).metadata self.pid)).isSome)
    (htrace : ((after (.runner n) s₀ log).dir (sessionPaths session).trace).isSome →
      TraceLeft session s₀) :
    (solo (.runner n) s₀ F (Truthful (Excused R self session n s₀) n s₀)).wp ()
      (prepareRunner self registry session files config).run
      (fun r log' => Reports self.pid session config n s₀ log' r) log := by
  unfold prepareRunner
  rw [hpaths]
  refine wp_before hlog (wp_openTrace hF) (fun trace log₁ h₁ hlog₁ => ?_) fun error log₁ h₁ _ => ?_
  swap
  · refine ⟨?_, by rintro _ ⟨⟩⟩
    rintro _ ⟨⟩ hkind
    obtain ⟨henabled, hsome⟩ := h₁.1 error rfl hkind
    exact .inl ⟨henabled, htrace hsome⟩
  have hbelow₁ := h₁.2.1 trace rfl
  -- Until the record is written only the trace could exist.
  refine wp_before hlog₁ (wp_plainly (Plainly.lift (within_traceEvent
    (takes_mild (apart_of_below hbelow₁)) _))) (fun trace₂ log₂ h₂ hlog₂ => ?_) fun error log₂ h₂ _ =>
      .plain (h₂.1.2 error rfl)
  have hbelow₂ := hbelow₁.spared (h₂.1.1 trace₂ rfl) h₂.2
  refine wp_before hlog₂ (wp_plainly (m := (after (.runner n) s₀ log₂).fresh) plainly_createPty)
    (fun _ log₃ h₃ hlog₃ => ?_) fun error log₃ h₃ _ => .plain (h₃.1.2 error rfl)
  have hbelow₃ := hbelow₂.spared rfl h₃.2
  refine wp_attempt_bind.mpr (wp_mono ?_ (wp_strengthen (fun _ h => Untold.truthful h) hlog₃
    (wp_plainly (plainly_spawnChild (apart_of_below hbelow₃)))))
  rintro (error | ⟨trace₄, startedAt, childPid⟩) log₄ ⟨⟨⟨hspawned, hplain⟩, hspared₄⟩, hlog₄⟩
  · refine wp_lift_bind.mpr (wp_alone (unobserved_truthful excused_lasting) (by rintro _ ⟨⟩) fun _ _ => wp_ret.mpr ?_)
    exact .plain (hplain error rfl)
  have hdir : (after (.runner n) s₀ log₄).dir
      (temporaryName (sessionPaths session).metadata self.pid) = (after (.runner n) s₀ log).dir
        (temporaryName (sessionPaths session).metadata self.pid) := by
    rw [hspared₄.dir, h₃.2.dir, h₂.2.dir]
    exact h₁.2.2 _ (Ne.symm (Failure.temporary_ne (.inr (.inr (.inl rfl)))))
  -- An error from here on is reported once the terminal and the child are gone.
  have hundo : ∀ {error : IoError} {log' : RunnerLog},
      (error.kind = .alreadyExists → (config.trace = true ∧ TraceLeft session s₀) ∨
        (s₀.dir (temporaryName (sessionPaths session).metadata self.pid)).isSome) →
      (solo (.runner n) s₀ F (Truthful (Excused R self session n s₀) n s₀)).wp () (ExceptT.run (do
          process .closePty
          ignore (ask (process (.killChild .kill)))
          ignore (ask (process .waitChild))
          throw error : Io (RunnerContext × Option Trace)))
        (fun r log'' => Reports self.pid session config n s₀ log'' r) log' := by
    intro error log' hexist
    refine wp_lift_bind.mpr (wp_alone (unobserved_truthful excused_lasting) (by rintro _ ⟨⟩) fun _ _ => ?_)
    refine wp_ignore_bind.mpr (wp_alone (unobserved_truthful excused_lasting) (by rintro _ ⟨⟩) fun _ _ => ?_)
    refine wp_ignore_bind.mpr (wp_alone (unobserved_truthful excused_lasting) (by rintro _ ⟨⟩) fun _ _ => wp_ret.mpr ?_)
    refine ⟨?_, by rintro _ ⟨⟩⟩
    rintro _ ⟨⟩
    exact hexist
  refine wp_attempt_bind.mpr (wp_before hlog₄ (P := fun r _ => ∀ error, r = .error error →
      error.kind = .alreadyExists → ((after (.runner n) s₀ log₄).dir
        (temporaryName (sessionPaths session).metadata self.pid)).isSome) ?_
    (fun _ log₅ _ hlog₅ => ?_) fun error log₅ h₅ _ => hundo fun hkind => .inr (htemporary ?_))
  · unfold RunnerContext.writeLive Registry.writeMetadata
    rw [hpaths]
    dsimp only
    split_ifs
    · refine wp_ret.mpr ?_
      rintro _ ⟨⟩ ⟨⟩
    · exact wp_mono (fun r log' h error hr hkind => h.conflict hF error hr hkind)
        (Alone.wp_atomicWrite unobserved_untold)
  swap
  · rw [← hdir]
    exact h₅ error rfl hkind
  -- The runner is ready.
  refine wp_recorded fun r hr => ⟨?_, ?_⟩
  · refine Truthful.send excused_lasting hlog₅.truthful (fun h => absurd h (by decide)) r
  · obtain error | _ := r
    · exact hundo fun hkind => (hr.creates error rfl hkind).elim
    · refine wp_ret.mpr ⟨by rintro _ ⟨⟩, ?_⟩
      rintro _ ⟨⟩
      exact Kernel.response_sent hr hlog₅

theorem overdue_of_same {s s' : Kernel} (hsame : SameEntries s s') (h : Overdue R session s' log) :
    Overdue R session s log := by
  obtain ⟨hstale, now, names, hopened, hunswept⟩ := h
  exact ⟨hsame.stale hstale, now, names, hopened,
    fun metadata hrecord => hunswept metadata (hsame.record hrecord)⟩

theorem traceLeft_of_same {s s' : Kernel} (hsame : SameEntries s s') (h : TraceLeft session s') :
    TraceLeft session s := by
  obtain ⟨htrace, hrecord, hsocket, hlock⟩ := h
  rw [hsame.dir] at htrace hrecord hsocket hlock
  exact ⟨htrace, hrecord, hsocket, hlock⟩

theorem wp_dropped {Good : RunnerLog → Prop} (hgood : Unobserved Good) {files : SessionFiles} :
    (solo (.runner n) s₀ F Good).wp () files.drop.run (fun r _ => r = .ok ()) log := by
  refine wp_ignore_bind.mpr (wp_alone hgood (by rintro _ ⟨⟩) fun _ _ => ?_)
  refine wp_ignore_bind.mpr (wp_alone hgood (by rintro _ ⟨⟩) fun _ _ => ?_)
  exact wp_lift.mpr (wp_alone hgood (by rintro _ ⟨⟩) fun _ _ => rfl)

/-- The start: an error says that something exists after the launcher was answered, or for a
reason. -/
theorem wp_startConflict {serde : Serde} {config : StartupConfig} (hF : F.Plain)
    (hR : R.Of serde self) (hlog : Untold n s₀ log) (hsame : SameEntries s₀ (after (.runner n) s₀ log))
    (hasks : config.trace = true → AsksTrace n s₀) :
    (solo (.runner n) s₀ F (Truthful (Excused R self session n s₀) n s₀)).wp ()
      (startRunner serde self session config).run
      (fun r log' => ∀ error, r = .error error → error.kind = .alreadyExists →
        ToldReady n s₀ log' ∨ Excused R self session n s₀ log') log := by
  rw [startRunner_eq]
  refine wp_before hlog (wp_takeSession unobserved_untold hF.honest hR)
    (fun taken log₁ h₁ hlog₁ => ?_) fun error log₁ h₁ _ => ?_
  swap
  · rintro _ ⟨⟩ hkind
    refine .inr ((h₁.2 hF error rfl hkind).imp hsame.held fun hoverdue => ?_)
    exact .overdue (overdue_of_same hsame hoverdue)
  obtain ⟨-, htakes, htrace⟩ := h₁.1 taken rfl
  have htemporary : ((after (.runner n) s₀ log₁).dir
      (temporaryName (sessionPaths session).metadata self.pid)).isSome →
        (s₀.dir (temporaryName (sessionPaths session).metadata self.pid)).isSome := by
    intro hsome
    obtain hkept | hgone := htakes.rest _ (Ne.symm (Failure.temporary_ne (.inl rfl)))
      (Ne.symm (Failure.temporary_ne (.inr (.inl rfl))))
    · rwa [hkept, hsame.dir] at hsome
    · rw [hgone] at hsome
      cases hsome
  have hleft : ((after (.runner n) s₀ log₁).dir (sessionPaths session).trace).isSome →
      TraceLeft session s₀ := by
    intro hsome
    obtain hnone | hleft := htrace
    · rw [hnone] at hsome
      cases hsome
    · exact traceLeft_of_same hsame hleft
  refine wp_attempt_bind.mpr (wp_mono ?_
    (wp_prepareConflict hF.honest htakes.paths hlog₁ htemporary hleft))
  rintro (error | ⟨ctx, trace⟩) log₂ h₂
  · -- The files are dropped, and the error is passed on.
    refine wp_seq _ (wp_dropped (unobserved_truthful excused_lasting)) (fun _ log₃ _ => wp_ret.mpr ?_) (by rintro _ _ ⟨⟩)
    rintro _ ⟨⟩ hkind
    refine .inr (.inr ?_)
    obtain ⟨henabled, hleft⟩ | htemporary := h₂.exist error rfl hkind
    · exact .trace (hasks henabled) hleft
    · exact .temporary htemporary
  · have hready := h₂.ready (ctx, trace) rfl
    refine wp_mono (fun r log' hready' => ?_) (wp_ready hready (ctx.serve trace).run)
    exact fun _ _ _ => .inl hready'

/-- The configuration that the runner reads is the one it was sent. -/
theorem wp_readStartup :
    (solo (.runner n) s₀ F (Untold n s₀)).wp () (ExceptT.run (do
        let bytes ← ask (process .recvStartup)
        ask (.ret (readStartupConfig bytes)) : Io StartupConfig))
      (fun r log' => SameEntries (after (.runner n) s₀ log) (after (.runner n) s₀ log') ∧
        ∀ config, r = .ok config → ∃ bytes, (after (.runner n) s₀ log).startup n = some bytes ∧
          readStartupConfig bytes = .ok config) log := by
  refine wp_io_bind.mpr (wp_alone unobserved_untold (by rintro _ ⟨⟩) fun r hr => ?_)
  have hsame : SameEntries (after (.runner n) s₀ log)
      (after (.runner n) s₀ (⟨.process .recvStartup, r⟩ :: log)) := .next _ _
  obtain error | bytes := r
  · exact wp_ret.mpr ⟨hsame, by rintro _ ⟨⟩⟩
  · refine wp_ret.mpr ⟨hsame, fun config hconfig => ⟨bytes, ?_, hconfig⟩⟩
    obtain ⟨s', hs'⟩ | ⟨error, herror, -⟩ := hr.answered
    · have hstep : (after (.runner n) s₀ log).processStep (.runner n) .recvStartup (.ok bytes) =
          some (.ok bytes, s') := hs'
      simp only [Kernel.processStep] at hstep
      split at hstep
      · rename_i bytes' hbytes
        rw [hbytes]
        have hanswer := congrArg Prod.fst (Option.some.inj hstep)
        exact congrArg some (Except.ok.inj hanswer)
      · split_ifs at hstep
        cases hstep
    · cases herror

/-- **The runner answers truthfully** that the session exists. -/
theorem wp_hiddenRunner {serde : Serde} (hF : F.Plain) (hR : R.Of serde self)
    (huntold : s₀.response n = none) :
    (solo (.runner n) s₀ F (Truthful (Excused R self session n s₀) n s₀)).wp ()
      (hiddenRunner serde self session).run (fun _ _ => True) [] := by
  refine wp_attempt_bind.mpr (wp_mono ?_
    (wp_strengthen (fun _ h => Untold.truthful h) huntold wp_readStartup))
  rintro (error | config) log₁ ⟨⟨hsame, hconfig⟩, hlog₁⟩
  · refine wp_ignore_bind.mpr (wp_recorded fun r _ => ⟨?_, wp_ret.mpr trivial⟩)
    exact hlog₁.truthful.send excused_lasting (fun h => absurd h (by decide)) r
  have hasks : config.trace = true → AsksTrace n s₀ := by
    intro htrace
    obtain ⟨bytes, hbytes, hread⟩ := hconfig config rfl
    exact ⟨bytes, config, hbytes, hread, htrace⟩
  refine wp_attempt_bind.mpr (wp_mono ?_
    (wp_keeps hlog₁.truthful (wp_startConflict hF hR hlog₁ hsame hasks)))
  rintro (error | _) log₂ ⟨h₂, htruthful⟩
  · refine wp_ignore_bind.mpr (wp_recorded fun r _ => ⟨htruthful.send excused_lasting (fun hexists => ?_) r,
      wp_ret.mpr trivial⟩)
    split_ifs at hexists with hkind
    · exact h₂ error rfl hkind
    · exact absurd hexists (by decide)
  · exact wp_ret.mpr trivial

end wps

/-! ### The launcher -/

theorem writeArguments_plain (command : List Bytes) :
    ∀ error, (writeArguments command).2 = .error error → error.kind ≠ .alreadyExists := by
  induction command with
  | nil => rintro _ ⟨⟩
  | cons argument rest ih =>
    unfold writeArguments
    split_ifs
    · exact ih
    · rintro _ ⟨⟩
      decide

theorem writeStartupConfig_plain (config : StartupConfig) :
    ∀ error, (writeStartupConfig config).2 = .error error → error.kind ≠ .alreadyExists := by
  unfold writeStartupConfig
  by_cases hlength : config.command.length < 2 ^ 16
  · rw [if_pos hlength]
    exact writeArguments_plain config.command
  · rw [if_neg hlength]
    rintro _ ⟨⟩
    decide

end Conflict

/-- The answers that the launcher `n` gets while its runner makes the calls of a log: each is one of
the system in some state of that run. -/
def besides (n : Nat) (s₀ : Kernel) (F : Faults) (log : RunnerLog) : Answers Call Call.Answer :=
  fun _ op r => ∃ log₀, log₀ <:+ log ∧ (after (.runner n) s₀ log₀).Admits (.caller n) F op r

namespace Conflict

section launcher

variable {session : SessionId} {config : StartupConfig} {n : Nat} {s₀ : Kernel} {F : Faults}
  {log log' : RunnerLog}

theorem response_suffix {log₀ : RunnerLog} {response : UInt8} (hsuffix : log₀ <:+ log)
    (h : (after (.runner n) s₀ log₀).response n = some response) :
    (after (.runner n) s₀ log).response n = some response := by
  obtain ⟨new, rfl⟩ := hsuffix
  induction new with
  | nil => exact h
  | cons e new ih => exact response_kept ih e.op e.answer

/-- What the launcher receives is what it was told. -/
theorem told_of_admits {s : Kernel} {response : UInt8}
    (h : s.Admits (.caller n) F (.process .recvResponse) (.ok response)) :
    s.response n = some response := by
  obtain ⟨s', hs'⟩ | ⟨error, herror, -⟩ := h.answered
  · have hstep : s.processStep (.caller n) .recvResponse (.ok response) = some (.ok response, s') := hs'
    simp only [Kernel.processStep] at hstep
    split at hstep
    · rename_i response' hresponse
      rw [hresponse]
      have hanswer := congrArg Prod.fst (Option.some.inj hstep)
      exact congrArg some (Except.ok.inj hanswer)
    · split_ifs at hstep
      cases hstep
  · cases herror

/-- The launch fails because something exists only if the launcher was told so. -/
theorem wp_launchRunner :
    (keeping (besides n s₀ F log) fun _ => True).wp () (launchRunner session config).run
      (fun r _ => ∀ error, r = .error error → error.kind = .alreadyExists →
        (after (.runner n) s₀ log).response n = some startupExists) log' := by
  have hcall : ∀ {α : Type} {error : IoError}, error.kind ≠ .alreadyExists →
      ∀ error', (.error error : Except IoError α) = .error error' → error'.kind = .alreadyExists →
        (after (.runner n) s₀ log).response n = some startupExists := by
    rintro _ _ hplain _ ⟨⟩ hkind
    exact absurd hkind hplain
  refine wp_io_bind.mpr (wp_recorded fun r hr => ⟨trivial, ?_⟩)
  obtain ⟨log₁, -, hadmits⟩ := hr
  have hcreates := hadmits.creates
  obtain error | _ := r
  · exact wp_ret.mpr (hcall fun hkind => hcreates error rfl hkind)
  refine wp_io_bind.mpr (wp_recorded fun r hr => ⟨trivial, ?_⟩)
  obtain ⟨log₂, -, hadmits₂⟩ := hr
  have hcreates₂ := hadmits₂.creates
  obtain error | _ := r
  · exact wp_ret.mpr (hcall fun hkind => hcreates₂ error rfl hkind)
  refine wp_io_bind.mpr (wp_ret.mpr ?_)
  cases hwritten : (writeStartupConfig config).2 with
  | error error => exact wp_ret.mpr (hcall (writeStartupConfig_plain config error hwritten))
  | ok _ =>
    refine wp_attempt_bind.mpr (wp_recorded fun r hr => ⟨trivial, ?_⟩)
    obtain ⟨log₃, hsuffix, hadmits₃⟩ := hr
    have hcreates₃ := hadmits₃.creates
    obtain error | response := r
    · refine wp_lift_bind.mpr (wp_recorded fun _ _ => ⟨trivial, wp_ret.mpr ?_⟩)
      exact hcall fun hkind => hcreates₃ error rfl hkind
    · dsimp only
      split_ifs with hready hexists
      · exact wp_ret.mpr (by rintro _ ⟨⟩)
      · refine wp_lift_bind.mpr (wp_recorded fun _ _ => ⟨trivial, wp_ret.mpr ?_⟩)
        intro _ _ _
        rw [hexists] at hadmits₃
        exact response_suffix hsuffix (told_of_admits hadmits₃)
      · refine wp_lift_bind.mpr (wp_recorded fun _ _ => ⟨trivial, wp_ret.mpr ?_⟩)
        exact hcall (by decide)

end launcher

end Conflict

/-- **A conflict has a reason**: whatever the runtime directory holds, and whatever calls fail, while
nothing runs but a runner and its launcher, the launcher fails because something exists only if the
session is in use, or an expired record, a trace or a temporary file was left. -/
theorem conflict_excused (n : Nat) (s₀ : Kernel) (F : Faults) (R : Registry) (serde : Serde)
    (self : Self) (session : SessionId) (config : StartupConfig) (log log' : RunnerLog)
    (p : Prog (Except IoError Unit)) (error : IoError) (hF : F.Plain) (hR : R.Of serde self)
    (huntold : s₀.response n = none)
    (hrunner : Runs (alone (.runner n) s₀ F) (hiddenRunner serde self session).run log p)
    (hlauncher : Runs (besides n s₀ F log) (launchRunner session config).run log'
      (.ret (.error error)))
    (hkind : error.kind = .alreadyExists) :
    Held R session s₀ log ∨ Leftover R self session n s₀ log := by
  obtain ⟨-, htold⟩ := log_sound trivial Conflict.wp_launchRunner hlauncher
  have hgood : Conflict.Truthful (Excused R self session n s₀) n s₀ [] := Conflict.Untold.truthful huntold
  obtain ⟨htruthful, -⟩ := log_sound hgood (Conflict.wp_hiddenRunner hF hR huntold) hrunner
  exact htruthful (htold _ rfl error rfl hkind)

end AfkCli
