import AfkCli.Footprint
import AfkCli.Json
import AfkCli.Serving

/-!
# The whole run serves

What the runner does after its event loop, whether it completes the session or abandons it, is
still what a hub does: the exit is queued behind the last attachment's output, and nothing else is
sent.

## Main definitions

* `Afterwards`: the calls of an ended session
* `Succeeds`: the programs that fail only when one of their calls does

## Main results

* `wp_runEventLoop`: every log of the loop and the completion is served by a hub, and both succeed
  unless a call fails that they need
* `wp_serve`: every log of a run of `RunnerContext.serve` is served by a hub
-/

namespace AfkCli

open Interaction Discipline

/-- The calls of an ended session: the hub takes no part in them. -/
def Afterwards : Call → Prop
  | .socket (.close _) | .process .tryWait => True
  | op => Quiet op

section footprints

variable {ops : Call → Prop} {self : Self}

/-- Replacing a file leaves the connections and the terminal alone. -/
theorem only_atomicWrite {name : Name} {bytes : Bytes} : Only Quiet (atomicWrite self name bytes) := by
  unfold atomicWrite
  refine (Only.ask (.perform trivial)).bind fun fd => ?_
  refine (Only.attempt ?_).bind fun r => ?_
  · refine (Only.ask (.perform trivial)).bind fun _ => ?_
    exact (Only.ask (.perform trivial)).bind fun _ => .ask (.perform trivial)
  · rcases r with error | _
    · exact (Only.ignore (.ask (.perform trivial))).bind fun _ => .throw error
    · exact .pure ()

theorem only_writeOutput {paths : SessionPaths} {output : Bytes} :
    Only Quiet (Registry.writeOutput self paths output) := by
  unfold Registry.writeOutput
  split
  · exact .throw _
  · exact only_atomicWrite

theorem only_writeMetadata {R : Registry} {paths : SessionPaths} {metadata : SessionMetadata} :
    Only Quiet (R.writeMetadata self paths metadata) := by
  unfold Registry.writeMetadata
  dsimp only
  split
  · exact .throw _
  · exact only_atomicWrite

/-- Dropping the files does so too. -/
theorem only_drop {files : SessionFiles} : Only Quiet files.drop := by
  unfold SessionFiles.drop
  refine (Only.ignore (.ask (.perform trivial))).bind fun _ => ?_
  exact (Only.ignore (.ask (.perform trivial))).bind fun _ => .lift (.perform trivial)

theorem only_removeLiveFiles {paths : SessionPaths} : Only Quiet (Registry.removeLiveFiles paths) :=
  (Only.ignore (.ask (.perform trivial))).bind fun _ => .ignore (.ask (.perform trivial))

/-- Waiting for the child to end polls it and the clock. -/
theorem only_awaitChild (rounds : Nat) : Only Afterwards (RunnerContext.awaitChild rounds) := by
  induction rounds with
  | zero => exact trivial
  | succ rounds ih =>
    rw [RunnerContext.awaitChild]
    refine (Only.lift (.perform trivial)).bind fun passed => ?_
    split
    · exact .pure none
    · refine (Only.ask (.perform trivial)).bind fun status => ?_
      rcases status with _ | status
      · exact (Only.lift (.perform trivial)).bind fun _ => ih
      · exact .pure (some status)

/-- Stopping the child signals it and reaps it. -/
theorem only_stopChild {ctx : RunnerContext} : Only Afterwards ctx.stopChild := by
  unfold RunnerContext.stopChild
  refine (Only.ask (.perform trivial)).bind fun status => ?_
  rcases status with _ | status
  · refine (Only.ask (.perform trivial)).bind fun _ => ?_
    refine (only_awaitChild _).bind fun status => ?_
    rcases status with _ | status
    · refine (Only.ask (.perform trivial)).bind fun status => ?_
      rcases status with _ | status
      · exact (Only.ask (.perform trivial)).bind fun _ => .ask (.perform trivial)
      · exact .ask (.perform trivial)
    · exact .pure status
  · exact .pure status

end footprints

/-! ## Success -/

/-- The program returns a result when no call fails that it needs. -/
def Succeeds {α : Type} (p : Io α) : Prop :=
  p.run.Within (fun op r => ¬ Spoils ⟨op, r⟩) (fun _ => True) fun r => ∃ a, r = .ok a

namespace Succeeds

variable {α β : Type}

theorem pure (a : α) : Succeeds (Pure.pure a : Io α) := ⟨a, rfl⟩

theorem bind {p : Io α} {f : α → Io β} (hp : Succeeds p) (hf : ∀ a, Succeeds (f a)) :
    Succeeds (p >>= f) := by
  rw [Succeeds, run_bind]
  refine Program.Within.bind hp ?_
  rintro _ ⟨a, rfl⟩
  exact hf a

/-- The branch of a failure is not taken. -/
theorem attempt_bind {p : Io α} {f : Except IoError α → Io β} (hp : Succeeds p)
    (hf : ∀ a, Succeeds (f (.ok a))) : Succeeds (attempt p >>= f) := by
  rw [Succeeds, run_attempt_bind]
  refine Program.Within.bind hp ?_
  rintro _ ⟨a, rfl⟩
  exact hf a

theorem ignore (p : Io α) : Succeeds (AfkCli.ignore p) := by
  rw [Succeeds, run_ignore]
  exact Program.Within.bind (Program.Within.mono (Program.within_true _) (fun _ _ _ => trivial)
    (fun _ => id) fun _ => id) fun _ _ => ⟨(), rfl⟩

theorem lift_bind (p : Prog α) {f : α → Io β} (hf : ∀ a, Succeeds (f a)) :
    Succeeds ((liftM p : Io α) >>= f) := by
  rw [Succeeds, run_lift_bind]
  exact Program.Within.bind (Program.Within.mono (Program.within_true _) (fun _ _ _ => trivial)
    (fun _ => id) fun _ => id) fun a _ => hf a

theorem lift (p : Prog α) : Succeeds (liftM p : Io α) := by
  rw [Succeeds, run_lift]
  exact Program.Within.bind (Program.Within.mono (Program.within_true _) (fun _ _ _ => trivial)
    (fun _ => id) fun _ => id) fun a _ => ⟨a, rfl⟩

/-- An answer that is no failure. -/
theorem answered {r : Except IoError α} (h : ∀ error, r ≠ .error error) : ∃ a, r = .ok a := by
  rcases r with error | a
  · exact absurd rfl (h error)
  · exact ⟨a, rfl⟩

end Succeeds

/-- A file is replaced when none of the calls fails. -/
theorem succeeds_atomicWrite {self : Self} {name : Name} {bytes : Bytes} :
    Succeeds (atomicWrite self name bytes) := by
  have hcreate : ∀ temporary, Succeeds (ask (file (.createNew temporary 0o600))) :=
    fun _ => ⟨trivial, fun _ hr => Succeeds.answered (by rintro error rfl; exact hr (.inl trivial))⟩
  have hwrite : ∀ fd, Succeeds (ask (file (.writeAll .atomicWrite fd bytes))) :=
    fun _ => ⟨trivial, fun _ hr => Succeeds.answered (by rintro error rfl; exact hr (.inl rfl))⟩
  have hsync : ∀ fd, Succeeds (ask (file (.syncAll fd))) :=
    fun _ => ⟨trivial, fun _ hr => Succeeds.answered (by rintro error rfl; exact hr (.inl trivial))⟩
  have hrename : ∀ temporary, Succeeds (ask (file (.rename temporary name))) :=
    fun _ => ⟨trivial, fun _ hr => Succeeds.answered (by rintro error rfl; exact hr (.inl trivial))⟩
  unfold atomicWrite
  refine (hcreate _).bind fun fd => .attempt_bind ?_ fun _ => .pure ()
  exact (hwrite fd).bind fun _ => (hsync fd).bind fun _ => hrename _

/-- An output that the tail keeps is small enough to be stored. -/
theorem succeeds_writeOutput {self : Self} {paths : SessionPaths} {tail : OutputTail}
    (htail : tail.capacity = outputTailBytes) :
    Succeeds (Registry.writeOutput self paths tail.snapshot) := by
  unfold Registry.writeOutput
  rw [if_neg (Nat.not_lt.mpr (htail ▸ tail.length_le))]
  exact succeeds_atomicWrite

/-- The record of a completed session is small enough to be stored. -/
theorem succeeds_writeMetadata {ctx : RunnerContext} {st : LoopState} {finishedAt : UInt64}
    {exit : ProcessExit} : Succeeds (ctx.registry.writeMetadata ctx.self ctx.files.paths
      (ctx.completedMetadata st finishedAt exit)) := by
  have hsmall : (ctx.registry.serde.toVec (ctx.completedMetadata st finishedAt exit)).length ≤
      maxMetadataBytes := ctx.registry.serde.length_toVec_le _ ctx.session.length_toText
  unfold Registry.writeMetadata
  dsimp only
  rw [if_neg (Nat.not_lt.mpr hsmall)]
  exact succeeds_atomicWrite

/-- The files are dropped, whatever fails. -/
theorem succeeds_drop (files : SessionFiles) : Succeeds files.drop := by
  unfold SessionFiles.drop
  exact (Succeeds.ignore _).bind fun _ => (Succeeds.ignore _).bind fun _ => .lift _

/-- Sending the exit does not fail, whatever the connection does. -/
theorem succeeds_sendExit (ctx : RunnerContext) (c : Connection) (exit : ProcessExit) :
    Succeeds (ctx.sendExit c exit) := by
  unfold RunnerContext.sendExit
  refine (Succeeds.ignore _).bind fun _ => (Succeeds.ignore _).bind fun _ => .lift_bind _ ?_
  rintro ⟨output, error | _⟩
  · exact .pure ()
  · cases hencode : encodeRecord (.exit exit) with
    | error error => exact .pure ()
    | ok encoded =>
      rcases hpush : output.push encoded with ⟨output', _ | _⟩
      · simp only [hpush]
        exact .pure ()
      · simp only [hpush]
        exact .lift_bind _ fun _ => .pure ()

/-- **The completion succeeds** when its calls do: the sizes of the output and of the record are in
their bounds. -/
theorem succeeds_completeSession (ctx : RunnerContext) {st : LoopState} (exit : ProcessExit)
    (htail : st.tail.capacity = outputTailBytes) : Succeeds (ctx.completeSession st exit) := by
  have hnow : Succeeds (nowSeconds .completeSession) :=
    ⟨trivial, fun _ hr => Succeeds.answered (by rintro error rfl; exact hr (.inr (.inr trivial)))⟩
  unfold RunnerContext.completeSession
  refine .attempt_bind ((succeeds_writeOutput htail).bind fun _ => hnow.bind fun _ =>
    succeeds_writeMetadata) fun _ => ?_
  refine ((Succeeds.ignore _).bind fun _ => .ignore _).bind fun _ => ?_
  refine (succeeds_drop _).bind fun _ => ?_
  cases st.active with
  | none => exact .pure ()
  | some c => exact (succeeds_sendExit ctx c exit).bind fun _ => .lift _

/-- The child is waited for when asking for it does not fail. -/
theorem succeeds_awaitChild (rounds : Nat) : Succeeds (RunnerContext.awaitChild rounds) := by
  have hwait : Succeeds (ask (process .tryWait)) :=
    ⟨trivial, fun _ hr => Succeeds.answered (by rintro error rfl; exact hr (.inr (.inl trivial)))⟩
  induction rounds with
  | zero => exact trivial
  | succ rounds ih =>
    rw [RunnerContext.awaitChild]
    refine .lift_bind _ fun passed => ?_
    split
    · exact .pure none
    · refine hwait.bind fun status => ?_
      cases status with
      | none => exact .lift_bind _ fun _ => ih
      | some status => exact .pure (some status)

/-- And it is stopped. -/
theorem succeeds_stopChild (ctx : RunnerContext) : Succeeds ctx.stopChild := by
  have hwait : Succeeds (ask (process .tryWait)) :=
    ⟨trivial, fun _ hr => Succeeds.answered (by rintro error rfl; exact hr (.inr (.inl trivial)))⟩
  have hkill : ∀ signal, Succeeds (ask (process (.killChild signal))) :=
    fun _ => ⟨trivial,
      fun _ hr => Succeeds.answered (by rintro error rfl; exact hr (.inr (.inr trivial)))⟩
  have hreap : Succeeds (ask (process .waitChild)) :=
    ⟨trivial, fun _ hr => Succeeds.answered (by rintro error rfl; exact hr (.inr (.inr trivial)))⟩
  unfold RunnerContext.stopChild
  refine hwait.bind fun status => ?_
  cases status with
  | some status => exact .pure status
  | none =>
    refine (hkill _).bind fun _ => (succeeds_awaitChild _).bind fun status => ?_
    cases status with
    | some status => exact .pure status
    | none =>
      refine hwait.bind fun status => ?_
      cases status with
      | some _ => exact hreap
      | none => exact (hkill _).bind fun _ => hreap

section run

variable {α : Type} {log : RunnerLog} {h : Hub} {st : LoopState} (ctx : RunnerContext)

/-- A part of the runner that makes only quiet calls leaves the history as it was. -/
theorem wp_quietly {p : Prog α} (hp : Calls Quiet p) (hserves : Serves log h) (hcalm : h.Calm) :
    serving.wp () p (fun _ log' => Serves log' h) log := by
  refine wp_mono (fun _ _ h => h.2) (wp_quiet (P := fun log => Serves log h) hp ?_ hserves)
  intro op r log hop hserves
  have hserves' : Serves (⟨op, r⟩ :: log) h := .event hserves (.quiet hop hcalm)
  exact ⟨⟨h, hserves'⟩, hserves'⟩

/-- The calls after the end leave an ended history as it was. -/
theorem wp_afterwards {p : Prog α} (hp : Calls Afterwards p) (hserves : Serves log h)
    (hsteady : h.leaving = none) (hended : h.phase.Ended) :
    serving.wp () p (fun _ log' => Serves log' h) log := by
  refine wp_mono (fun _ _ h => h.2) (wp_quiet (P := fun log => Serves log h) hp ?_ hserves)
  intro op r log hop hserves
  have hon : h.On ⟨op, r⟩ h := by
    unfold Afterwards at hop
    split at hop
    · exact .close hsteady hended
    · exact .wait ⟨hsteady, hended.calm⟩ (.inl hended)
    · exact .quiet hop ⟨hsteady, hended.calm⟩
  exact ⟨⟨h, .event hserves hon⟩, .event hserves hon⟩

/-- A program after which nothing is claimed any more. -/
abbrev Serving (p : Prog α) (log : RunnerLog) : Prop := serving.wp () p (fun _ _ => True) log

theorem serving_of_wp {p : Prog α} {Q : α → RunnerLog → Prop} (hp : serving.wp () p Q log) :
    Serving p log :=
  wp_mono (fun _ _ _ => trivial) hp

/-- What the log says of the result: without a spoiling failure it is no error. -/
def Unspoilt {α : Type} (r : Except IoError α) (log : RunnerLog) : Prop :=
  Smooth log → ∃ a, r = .ok a

/-- A program that succeeds, as part of a run that a hub serves. -/
theorem wp_unspoilt {p : Io α} (hp : Succeeds p) (h : Serving p.run log) :
    serving.wp () p.run Unspoilt log :=
  wp_mono (fun _ _ h => h.2) (wp_answers hp h)

/-- After a spoiling failure nothing is claimed of the result. -/
theorem wp_spoilt {p : Io α} (hlog : ¬ Smooth log) (h : Serving p.run log) :
    serving.wp () p.run Unspoilt log :=
  wp_mono (fun _ _ h hsmooth => absurd (hsmooth.suffix h.2) hlog) (wp_extends h)

/-- A runner that gives up serves nothing more. -/
theorem serving_abandon {error : IoError} (hserves : Serves log h) (hcalm : h.Calm) :
    Serving (ctx.abandon error).run log := by
  refine serving_of_wp (wp_quietly ?_ hserves hcalm)
  unfold RunnerContext.abandon
  exact (Only.lift (.perform trivial)).bind fun _ => only_drop.bind fun _ => .throw error

/-- Sending the exit is a part of serving. -/
theorem serving_sendExit {c : Connection} {exit : ProcessExit}
    (hserves : Serves log h) (hactive : h.active = some c) (hsteady : h.leaving = none)
    (hended : h.phase.Ended) (hunfinished : h.phase ≠ .finished) :
    serving.wp () (ctx.sendExit c exit).run
      (fun r log' => r = .ok () ∧ ∃ h', Serves log' h' ∧ h'.phase.Ended ∧
        (h'.leaving = none ∨ h'.leaving = some c.stream)) log := by
  have hquiet : ∀ (call : Call) {log : RunnerLog}, Quiet call → Serves log h →
      ∀ r : call.Answer, Serves (⟨call, r⟩ :: log) h :=
    fun _ _ hcall hserves r => .event hserves (.quiet hcall ⟨hsteady, hended.calm⟩)
  unfold RunnerContext.sendExit
  refine wp_ignore_bind.mpr (wp_take fun r => ?_)
  have hserves := hquiet (.socket (.setNonblocking c.stream false)) trivial hserves r
  refine ⟨⟨_, hserves⟩, wp_ignore_bind.mpr (wp_take fun r => ?_)⟩
  have hserves := hquiet (.socket (.setWriteTimeout c.stream)) trivial hserves r
  refine ⟨⟨_, hserves⟩, wp_lift_bind.mpr ?_⟩
  have hat : At False _ { h with active := some { c with output := c.output } } :=
    ⟨by rw [← hactive]; exact hserves, False.elim⟩
  refine wp_mono ?_ (wp_flushConnection hat hsteady (.inr hended))
  rintro ⟨output, error | _⟩ log hat
  · exact ⟨rfl, _, hat.serves, hended, .inr rfl⟩
  · cases hencode : encodeRecord (.exit exit) with
    | error error => exact ⟨rfl, _, hat.serves, hended, .inl hsteady⟩
    | ok encoded =>
      rcases hpush : output.push encoded with ⟨output', _ | _⟩
      · simp only [hpush]
        exact ⟨rfl, _, hat.serves, hended, .inl hsteady⟩
      · have hfits : (output.push encoded).2 = true := by rw [hpush]
        have hfinished := hat.silent hsteady
          (.finish (c := { c with output }) hended hunfinished rfl hencode hfits)
        rw [hpush] at hfinished
        simp only [hpush]
        refine wp_lift_bind.mpr (wp_mono ?_ (wp_flushConnection
          (h := { h with phase := .finished }) hfinished hsteady (.inr trivial)))
        rintro ⟨output'', error | _⟩ log hat
        · exact ⟨rfl, _, hat.serves, trivial, .inr rfl⟩
        · exact ⟨rfl, _, hat.serves, trivial, .inl hsteady⟩

/-- Closing a connection at the end of a session. -/
theorem wp_closeEnded {connection : Option Connection} (hserves : Serves log h)
    (hsteady : h.leaving = none) (hended : h.phase.Ended) :
    serving.wp () (closeConnection connection) (fun _ log' => Serves log' h) log := by
  refine wp_afterwards ?_ hserves hsteady hended
  cases connection with
  | none => exact .ret ()
  | some c => exact .perform trivial

/-- Completing a session leaves the hub steady and ended. -/
theorem wp_completeSession (st : LoopState) {phase : Phase} {exit : ProcessExit} (hserves : Serves log (st.hub phase))
    (hended : phase.Ended) (hunfinished : phase ≠ .finished) :
    serving.wp () (ctx.completeSession st exit).run
      (fun _ log' => ∃ h', Serves log' h' ∧ h'.leaving = none ∧ h'.phase.Ended) log := by
  -- Storing the output and the record sends nothing to a connection.
  have hstore : Only Quiet (do
      Registry.writeOutput ctx.self ctx.files.paths st.tail.snapshot
      let finishedAt ← nowSeconds .completeSession
      ctx.registry.writeMetadata ctx.self ctx.files.paths
        (ctx.completedMetadata st finishedAt exit)) :=
    only_writeOutput.bind fun _ => (Only.ask (.perform trivial)).bind fun _ => only_writeMetadata
  unfold RunnerContext.completeSession
  refine wp_attempt_bind.mpr (wp_mono ?_ (wp_quietly hstore hserves ⟨rfl, hended.calm⟩))
  rintro (error | _) log hserves
  · refine wp_lift_bind.mpr (wp_mono ?_ (wp_closeEnded hserves rfl hended))
    intro _ log hserves
    refine wp_mono (fun _ log hserves => ⟨_, hserves, rfl, hended⟩)
      (wp_quietly (only_drop.bind fun _ => .throw error) hserves ⟨rfl, hended.calm⟩)
  · refine wp_seq (fun _ log' => Serves log' (st.hub phase))
      (wp_quietly only_removeLiveFiles hserves ⟨rfl, hended.calm⟩) ?_ fun _ _ h => ⟨_, h, rfl, hended⟩
    intro _ log hserves
    refine wp_seq (fun _ log' => Serves log' (st.hub phase))
      (wp_quietly only_drop hserves ⟨rfl, hended.calm⟩) ?_ fun _ _ h => ⟨_, h, rfl, hended⟩
    intro _ log hserves
    split
    · -- Nobody is attached, so nobody is told.
      exact ⟨_, hserves, rfl, hended⟩
    · rename_i c hactive
      refine wp_seq _ (serving_sendExit ctx hserves hactive rfl hended hunfinished) ?_ nofun
      · rintro _ log ⟨-, h', hserves, hended, hsteady | hleaving⟩
        · refine wp_lift.mpr (wp_mono (fun _ log hserves => ⟨_, hserves, hsteady, hended⟩)
            (wp_afterwards (.perform trivial) hserves hsteady hended))
        · have hat : At False log h' := ⟨hserves, False.elim⟩
          exact wp_lift.mpr (wp_mono (fun _ log hat =>
            ⟨{ h' with leaving := none }, hat.serves, rfl, hended⟩) (wp_leave hat hleaving))

/-- **The loop and the completion**: every log is served by a hub, and an error is the error of a
call that they need. -/
theorem wp_runEventLoop (hserves : Serves log (st.hub .idle)) :
    serving.wp () (ctx.runEventLoop st).run Unspoilt log := by
  have hat : At False log (st.hub .idle) := ⟨hserves, False.elim⟩
  unfold RunnerContext.runEventLoop
  refine wp_attempt_bind.mpr (wp_mono ?_ (wp_eventLoop ctx hat))
  rintro (error | turn) log hends
  · -- The loop failed, so some call did.
    obtain ⟨⟨h, hserves, hcalm⟩, hbroken⟩ := hends
    exact wp_spoilt (fun hsmooth => hbroken hsmooth.unbroken) (serving_abandon ctx hserves hcalm)
  · obtain ⟨hends, hagain⟩ := hends
    cases turn with
    | again st => exact absurd rfl (hagain st)
    -- The child exited: what is left in the terminal is read before the session is completed.
    | exited st exit =>
      obtain ⟨status, rfl, hat⟩ := hends
      refine wp_attempt_bind.mpr (wp_mono ?_ (wp_drainPty ctx (.inr ⟨status, rfl⟩) hat))
      rintro (error | st) log hdrained
      · obtain ⟨⟨h, hserves, hcalm⟩, hbroken⟩ := hdrained
        exact wp_spoilt (fun hsmooth => hbroken hsmooth.unbroken)
          (serving_abandon ctx hserves hcalm)
      · refine wp_unspoilt ?_ ?_
        · refine .lift_bind _ fun trace => ?_
          refine (succeeds_completeSession ctx _ hdrained.serves.steady.tail).bind fun _ => ?_
          exact .lift_bind _ fun _ => .lift _
        refine wp_lift_bind.mpr (wp_mono ?_ (wp_trace hdrained (calls_traceProcessExit _ _ _)))
        rintro trace log ⟨-, hat⟩
        refine wp_seq (fun _ log' => ∃ h', Serves log' h' ∧ h'.leaving = none ∧ h'.phase.Ended)
          (wp_completeSession ctx { st with trace } hat.serves trivial nofun) ?_
          fun _ _ _ => trivial
        rintro _ log ⟨h', hserves, hsteady, hended⟩
        refine wp_lift_bind.mpr (wp_mono ?_ (wp_closeEnded hserves hsteady hended))
        intro _ log hserves
        exact wp_lift.mpr (serving_of_wp (wp_quietly (.perform trivial) hserves ⟨hsteady, hended.calm⟩))
    -- A connection asked for the end: the child is stopped, however long that takes.
    | stopRequested st =>
      obtain ⟨stream, hat⟩ := hends
      refine wp_unspoilt ?_ ?_
      · refine .lift_bind _ fun _ => .attempt_bind (succeeds_stopChild ctx) fun status => ?_
        refine .lift_bind _ fun trace => ?_
        exact (succeeds_completeSession ctx _ hat.serves.steady.tail).bind fun _ => .lift _
      refine wp_lift_bind.mpr (wp_mono ?_ (wp_quietly (.perform trivial) hat.serves ⟨rfl, trivial⟩))
      intro _ log hserves
      refine wp_attempt_bind.mpr (wp_mono ?_ (wp_afterwards only_stopChild hserves rfl trivial))
      rintro (error | status) log hserves
      · refine wp_lift_bind.mpr (wp_mono ?_ (wp_closeEnded hserves rfl trivial))
        intro _ log hserves
        exact serving_of_wp
          (wp_quietly (only_drop.bind fun _ => .throw error) hserves ⟨rfl, trivial⟩)
      · have hat : At False log (st.hub (.stopped stream)) := ⟨hserves, False.elim⟩
        refine wp_lift_bind.mpr (wp_mono ?_ (wp_trace hat (calls_traceProcessExit _ _ _)))
        rintro trace log ⟨-, hat⟩
        refine wp_seq (fun _ log' => ∃ h', Serves log' h' ∧ h'.leaving = none ∧ h'.phase.Ended)
          (wp_completeSession ctx { st with trace } hat.serves trivial nofun) ?_
          fun _ _ _ => trivial
        rintro _ log ⟨h', hserves, hsteady, hended⟩
        exact wp_lift.mpr (serving_of_wp (wp_closeEnded hserves hsteady hended))

theorem wp_serve (trace : Option Trace) : Serving (ctx.serve trace).run [] := by
  have hstart : ∀ r, Serves [⟨.process .setPtyNonblocking, r⟩] .start :=
    fun _ => .event .start (.quiet trivial ⟨rfl, trivial⟩)
  unfold RunnerContext.serve
  refine wp_attempt_bind.mpr (wp_take fun r => ⟨⟨_, hstart r⟩, ?_⟩)
  rcases r with error | _
  · exact serving_abandon ctx (hstart _) ⟨rfl, trivial⟩
  · exact serving_of_wp (wp_runEventLoop ctx (hstart _))

end run

/-- The runner of an example session. -/
def exampleContext : RunnerContext where
  self := { pid := 7, uid := 0, home := none, shell := none, rounds := 4 }
  registry := { root := ascii "/root/.afk/run", uid := 0, serde := jsonSerde }
  session := ⟨List.replicate 16 7, rfl⟩
  files := { listener := 3, lock := 4, paths := sessionPaths ⟨List.replicate 16 7, rfl⟩ }
  childPid := 8
  startedAt := 0

end AfkCli
