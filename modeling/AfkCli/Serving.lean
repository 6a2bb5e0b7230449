import AfkCli.Footprint
import AfkCli.Hoare
import AfkCli.Hub

/-!
# The event loop serves as a hub

The runner's event loop is a hub: whatever its calls answer, the log of a run is one that a hub
serves, and between two turns the variables of the loop are the state of that hub.

## Main definitions

* `LoopState.hub`: the variables of the loop as a hub
* `At`: the log leads to a state of the hub
* `serving`: the discipline of programs whose logs are served

## Main results

* `wp_eventLoop`: the loop serves, and ends only with an exit, a stop, or a failure
-/

namespace AfkCli

open Interaction Discipline

/-- The variables of the event loop as a hub. -/
def LoopState.hub (st : LoopState) (phase : Phase) : Hub where
  tail := st.tail
  ptyInput := st.ptyInput
  active := st.active
  candidate := st.candidate
  phase := phase
  leaving := none

/-- The log leads to this state of the hub; where `S` matters, nothing in it broke the loop. -/
structure At (S : Prop) (log : RunnerLog) (h : Hub) : Prop where
  serves : Serves log h
  unbroken : S → Unbroken log

/-- The loop is broken, and nothing is left to do. -/
def Broken (log : RunnerLog) : Prop :=
  (∃ h, Serves log h ∧ h.Calm) ∧ ¬ Unbroken log

/-- The result of a program: what it returns satisfies `Q`, or it broke. -/
def Settles {α : Type} (Q : α → RunnerLog → Prop) : Except IoError α → RunnerLog → Prop
  | .ok a, log => Q a log
  | .error _, log => Broken log

/-- The discipline of programs all of whose logs are served by a hub. -/
abbrev serving : Discipline (logMachine fun (_ : RunnerLog) (_ : Call) _ => True) :=
  keeping _ fun log => ∃ h, Serves log h

section rules

variable {S : Prop} {α β : Type} {log : RunnerLog} {h h' : Hub} {op : Call}

theorem unbroken_cons {e : RunnerEvent} (hlog : Unbroken log) (hb : ¬ Breaking e)
    (hs : ¬ SystemFailure e) : Unbroken (e :: log) := by
  intro e' he'
  rcases List.mem_cons.mp he' with rfl | he'
  · exact ⟨hb, hs⟩
  · exact hlog e' he'

/-- The hub takes an event that does not break the loop. -/
theorem At.take {e : RunnerEvent} (hat : At S log h) (hon : h.On e h') (hb : ¬ Breaking e)
    (hs : ¬ SystemFailure e) : At S (e :: log) h' :=
  ⟨.event hat.serves hon, fun hS => unbroken_cons (hat.unbroken hS) hb hs⟩

theorem At.silent (hat : At S log h) (hsteady : h.leaving = none) (hsilent : h.Silent h') :
    At S log h' :=
  ⟨.silent hat.serves hsteady hsilent, hat.unbroken⟩

/-- The hub takes an event that breaks the loop. -/
theorem broken_of_on {e : RunnerEvent} (hat : At S log h) (hon : h.On e h')
    (hcalm : h'.Calm) (hfatal : Breaking e ∨ SystemFailure e) : Broken (e :: log) := by
  refine ⟨⟨h', .event hat.serves hon, hcalm⟩, fun hlog => ?_⟩
  obtain ⟨hb, hs⟩ := hlog e List.mem_cons_self
  exact hfatal.elim hb hs

/-- A broken loop stays broken. -/
theorem Broken.quiet (op : Call) (hbroken : Broken log) (hop : Quiet op) (r : op.Answer) :
    Broken (⟨op, r⟩ :: log) := by
  obtain ⟨⟨h, hserves, hcalm⟩, hlog⟩ := hbroken
  refine ⟨⟨h, .event hserves (.quiet hop hcalm), hcalm⟩, fun hlog' => hlog fun e he => ?_⟩
  exact hlog' e (List.mem_cons_of_mem _ he)

/-- The rule for a call that the hub takes. -/
theorem wp_take {Q : op.Answer → RunnerLog → Prop}
    (hcall : ∀ r, (∃ h, Serves (⟨op, r⟩ :: log) h) ∧ Q r (⟨op, r⟩ :: log)) :
    serving.wp () (Program.perform op) Q log :=
  wp_record fun r _ => hcall r

/-- The rule for a call that the hub takes whatever the answer. -/
theorem wp_hub {Q : op.Answer → RunnerLog → Prop} (hat : At S log h)
    (hon : ∀ r, ∃ h', h.On ⟨op, r⟩ h') (hQ : ∀ r, Q r (⟨op, r⟩ :: log)) :
    serving.wp () (Program.perform op) Q log := by
  refine wp_take fun r => ⟨?_, hQ r⟩
  obtain ⟨h', hon⟩ := hon r
  exact ⟨h', .event hat.serves hon⟩

/-- Continue after a program that settles. -/
theorem wp_settles {p : Io α} {f : α → Io β} {Q : α → RunnerLog → Prop}
    {R : β → RunnerLog → Prop} (hp : serving.wp () p.run (Settles Q) log)
    (hf : ∀ a log', Q a log' → serving.wp () (f a).run (Settles R) log') :
    serving.wp () (p >>= f).run (Settles R) log :=
  wp_seq (Settles Q) hp hf fun _ _ hbroken => hbroken

/-- A program of the trace's calls leaves the hub as it is. -/
theorem wp_trace {p : Prog α} {q : α → Prop} (hat : At S log h)
    (hp : p.Within (fun _ _ => True) Traces q) :
    serving.wp () p (fun a log' => q a ∧ At S log' h) log := by
  refine wp_quiet (P := fun log => At S log h) hp ?_ hat
  intro op r log hop hat
  have hon : h.On ⟨op, r⟩ h := .trace hop
  refine ⟨⟨h, .event hat.serves hon⟩, hat.take hon ?_ ?_⟩
  · rcases op with op | op | op | op | op <;> cases op <;> first
      | exact hop.elim
      | (rcases r with error | _ <;> simp_all [Breaking, Traces])
  · rcases op with op | op | op | op | op <;> cases op <;> first
      | exact hop.elim
      | simp [SystemFailure]

/-- Dimensions of a valid record are set. -/
theorem setWindowSize_valid {rows columns : UInt16}
    (h : (1 ≤ rows ∧ rows ≤ maxTerminalDimension) ∧
      (1 ≤ columns ∧ columns ≤ maxTerminalDimension)) :
    setWindowSize rows columns = ask (process (.setWindowSize rows columns)) := by
  unfold setWindowSize validateDimensions
  rw [if_pos h]
  rfl

/-- A broken loop may still write its trace. -/
theorem wp_broken {p : Prog α} {q : α → Prop} (hbroken : Broken log)
    (hp : p.Within (fun _ _ => True) Traces q) :
    serving.wp () p (fun a log' => q a ∧ Broken log') log := by
  refine wp_quiet hp ?_ hbroken
  rintro op r log hop ⟨⟨h, hserves, hcalm⟩, hlog⟩
  have hserves' : Serves (⟨op, r⟩ :: log) h := .event hserves (.trace hop)
  refine ⟨⟨h, hserves'⟩, ⟨h, hserves', hcalm⟩, fun hlog' => hlog fun e he => ?_⟩
  exact hlog' e (List.mem_cons_of_mem _ he)

end rules

/-! ## Traces -/

section traces

variable {self : Self}

theorem takes_traces (trace : Option Trace) : TakesTrace Traces trace :=
  ⟨rfl, fun _ _ _ => rfl⟩

theorem calls_traceWrite (trace : Trace) (event : String) (detail : Bytes) :
    Calls Traces (trace.write self event detail) :=
  .of_within (within_traceWrite (takes_traces (some trace)) event detail)

theorem calls_traceEvent (trace : Option Trace) (event : String) :
    Calls Traces (traceEvent self trace event) :=
  .of_within (within_traceEvent (takes_traces trace) event)

theorem calls_traceIoError (trace : Option Trace) (event : String) (error : IoError) :
    Calls Traces (traceIoError self trace event error) :=
  .of_within (within_traceIoError (takes_traces trace) event error)

theorem calls_traceProcessExit (trace : Option Trace) (event : String) (exit : ProcessExit) :
    Calls Traces (traceProcessExit self trace event exit) :=
  .of_within (within_traceProcessExit (takes_traces trace) event exit)

end traces

section loop

variable {S : Prop} {log : RunnerLog} {h h' : Hub} {st : LoopState} (ctx : RunnerContext)

theorem wp_event (st : LoopState) (hat : At S log h) (event : String) :
    serving.wp () (ctx.event st event)
      (fun st' log' => (∃ trace, st' = { st with trace }) ∧ At S log' h) log := by
  refine wp_trace hat ?_
  exact Program.Within.bind (calls_traceEvent st.trace event) fun trace _ => ⟨trace, rfl⟩

theorem within_ioErrorEvent (event : String) (error : IoError) :
    (ctx.ioErrorEvent st event error).Within (fun _ _ => True) Traces
      fun st' => ∃ trace, st' = { st with trace } :=
  Program.Within.bind (calls_traceIoError st.trace event error) fun trace _ => ⟨trace, rfl⟩

theorem wp_ioErrorEvent (st : LoopState) (hat : At S log h) (event : String) (error : IoError) :
    serving.wp () (ctx.ioErrorEvent st event error)
      (fun st' log' => (∃ trace, st' = { st with trace }) ∧ At S log' h) log :=
  wp_trace hat (within_ioErrorEvent ctx event error)

theorem wp_brokenEvent (st : LoopState) (hbroken : Broken log) (event : String) (error : IoError) :
    serving.wp () (ctx.ioErrorEvent st event error) (fun _ log' => Broken log') log :=
  wp_mono (fun _ _ h => h.2) (wp_broken hbroken (within_ioErrorEvent ctx event error))

/-! ## Reading and writing -/

/-- Flushing a queue: `J` holds with what is left as long as the writes go through, and `F` after
one that failed. -/
theorem wp_flush {write : Bytes → Io Nat} {J F : ByteQueue → RunnerLog → Prop}
    (hwrite : ∀ queue log, J queue log → serving.wp () (write queue.bytes).run
      (fun r log' => match queue.afterWrite r with
        | some queue' => J queue' log'
        | none => F queue log') log)
    {rounds : Nat} {queue : ByteQueue} {log : RunnerLog} (hJ : J queue log) :
    serving.wp () (flushQueue write rounds queue)
      (fun result log' => match result.2 with
        | .ok () => J result.1 log'
        | .error _ => F result.1 log') log := by
  induction rounds generalizing queue log with
  | zero => trivial
  | succ rounds ih =>
    unfold flushQueue
    split
    · exact hJ
    · refine wp_bind.mpr (wp_mono (fun r log' hr => ?_) (hwrite queue log hJ))
      rcases r with error | (_ | n)
      · simp only [ByteQueue.afterWrite] at hr ⊢
        by_cases hblock : error.kind = .wouldBlock
        · rw [if_pos (.inl hblock)] at hr
          rw [if_pos hblock]
          exact hr
        · by_cases hinterrupt : error.kind = .interrupted
          · rw [if_pos (.inr hinterrupt)] at hr
            rw [if_neg hblock, if_pos hinterrupt]
            exact ih hr
          · rw [if_neg (by simp [hblock, hinterrupt])] at hr
            rw [if_neg hblock, if_neg hinterrupt]
            exact hr
      · exact hr
      · exact ih hr

/-- Flushing the terminal's input. -/
theorem wp_flushTerminal {rounds : Nat} {queue : ByteQueue}
    (hat : At S log { h with ptyInput := queue }) (hsteady : h.leaving = none)
    (hphase : h.phase = .idle) :
    serving.wp () (flushQueue writePty rounds queue)
      (fun result log' => match result.2 with
        | .ok () => At S log' { h with ptyInput := result.1 }
        | .error _ =>
          At S log'
            { h with
              ptyInput := result.1
              active := none
              leaving := h.active.map (·.stream) }) log := by
  refine wp_flush (J := fun queue log => At S log { h with ptyInput := queue })
    (F := fun queue log =>
      At S log { h with ptyInput := queue, active := none, leaving := h.active.map (·.stream) })
    ?_ hat
  intro queue log hat
  have hon : ∀ r, Hub.On { h with ptyInput := queue } ⟨.process (.writePty queue.bytes), r⟩
      (Hub.writePty { h with ptyInput := queue } r) := fun r => .writePty hsteady hphase
  refine wp_hub hat (fun r => ⟨_, hon r⟩) fun r => ?_
  have hat' := hat.take (hon r) (by simp [Breaking]) (by simp [SystemFailure])
  unfold Hub.writePty at hat'
  dsimp only at hat' ⊢
  cases hr : queue.afterWrite r with
  | none => simpa only [hr] using hat'
  | some queue' => simpa only [hr] using hat'

/-- Flushing the active attachment's output. -/
theorem wp_flushConnection {rounds : Nat} {c : Connection} {queue : ByteQueue}
    (hat : At S log { h with active := some { c with output := queue } })
    (hsteady : h.leaving = none) (hphase : h.phase = .idle ∨ h.phase.Ended) :
    serving.wp () (flushQueue (writeStream c.stream) rounds queue)
      (fun result log' => match result.2 with
        | .ok () => At S log' { h with active := some { c with output := result.1 } }
        | .error _ => At S log' { h with active := none, leaving := some c.stream }) log := by
  refine wp_flush
    (J := fun queue log => At S log { h with active := some { c with output := queue } })
    (F := fun _ log => At S log { h with active := none, leaving := some c.stream }) ?_ hat
  intro queue log hat
  have hon : ∀ r, Hub.On { h with active := some { c with output := queue } }
      ⟨.socket (.write c.stream queue.bytes), r⟩
      (Hub.writeActive { h with active := some { c with output := queue } }
        { c with output := queue } r) :=
    fun r => .writeActive (c := { c with output := queue }) hsteady hphase rfl
  refine wp_hub hat (fun r => ⟨_, hon r⟩) fun r => ?_
  have hat' := hat.take (hon r) (by simp [Breaking]) (by simp [SystemFailure])
  unfold Hub.writeActive at hat'
  dsimp only at hat' ⊢
  cases hr : queue.afterWrite r with
  | none => simpa only [hr] using hat'
  | some queue' => simpa only [hr] using hat'

/-- Reading a connection, which the hub takes as `take`. -/
theorem wp_readRecords {c : Connection} {take : Except IoError Bytes → Hub} (hc : c.Steady)
    (hat : At S log h) (hon : ∀ capacity r, h.On ⟨.socket (.read c.stream capacity), r⟩ (take r)) :
    serving.wp () (readRecords c).run
      (fun result log' => ∃ r, At S log' (take r) ∧ match c.receive r with
        | .blocked => result = .ok ([], c)
        | .failed => ∃ error, result = .error error
        | .records c' records => result = .ok (records, c')) log := by
  have hroom : ¬ min c.decoder.remainingCapacity ioChunkBytes = 0 := by
    have := Decoder.remainingCapacity_pos hc.drained
    simp only [ioChunkBytes]
    omega
  unfold readRecords
  dsimp only
  rw [if_neg hroom]
  refine wp_attempt_bind.mpr (wp_hub hat (fun r => ⟨_, hon _ r⟩) fun r => ?_)
  have hat' : At S _ (take r) := hat.take (hon _ r) (by simp [Breaking]) (by simp [SystemFailure])
  rcases r with error | (_ | ⟨byte, bytes⟩)
  · by_cases hblock : error.kind = .wouldBlock ∨ error.kind = .interrupted
    · simp only [if_pos hblock]
      exact ⟨_, hat', by simp only [Connection.receive, if_pos hblock]⟩
    · simp only [if_neg hblock]
      exact ⟨_, hat', by simp only [Connection.receive, if_neg hblock]; exact ⟨error, rfl⟩⟩
  · exact ⟨_, hat', by simp only [Connection.receive]; exact ⟨_, rfl⟩⟩
  · cases hpush : c.decoder.push (byte :: bytes) with
    | error error =>
      simp only [hpush]
      exact ⟨_, hat', by simp only [Connection.receive, hpush]; exact ⟨_, rfl⟩⟩
    | ok pushed =>
      cases hdrain : pushed.drain with
      | error error =>
        simp only [hpush, hdrain]
        exact ⟨_, hat', by simp only [Connection.receive, hpush, hdrain]; exact ⟨_, rfl⟩⟩
      | ok result =>
        obtain ⟨records, decoder⟩ := result
        simp only [hpush, hdrain]
        exact ⟨_, hat', by simp only [Connection.receive, hpush, hdrain]⟩

/-! ## Dropping a connection -/

theorem wp_leave {stream : Fd} (hat : At S log h) (hleaving : h.leaving = some stream) :
    serving.wp () (socket (.close stream)) (fun _ log' => At S log' { h with leaving := none })
      log := by
  have hon : ∀ r, h.On ⟨.socket (.close stream), r⟩ { h with leaving := none } :=
    fun _ => .closeLeaving hleaving
  refine wp_hub hat (fun r => ⟨_, hon r⟩) fun r => ?_
  exact hat.take (hon r) (by simp [Breaking]) (by simp [SystemFailure])

theorem wp_closeConnection {connection : Option Connection} (hat : At S log h)
    (hleaving : h.leaving = connection.map (·.stream)) :
    serving.wp () (closeConnection connection)
      (fun _ log' => At S log' { h with leaving := none }) log := by
  cases connection with
  | none =>
    have hsame : { h with leaving := none } = h := by
      rw [Option.map_none] at hleaving
      rw [← hleaving]
    rw [hsame]
    exact hat
  | some c => exact wp_leave hat hleaving

theorem wp_dropActive (hat : At S log h) (hleaving : h.leaving = st.active.map (·.stream)) :
    serving.wp () (dropActive st)
      (fun st' log' => st' = { st with active := none } ∧ At S log' { h with leaving := none })
      log :=
  wp_bind.mpr (wp_mono (fun _ _ hat' => ⟨rfl, hat'⟩) (wp_closeConnection hat hleaving))

theorem wp_dropCandidate (hat : At S log h) (hleaving : h.leaving = st.candidate.map (·.stream)) :
    serving.wp () (dropCandidate st)
      (fun st' log' => st' = { st with candidate := none } ∧ At S log' { h with leaving := none })
      log :=
  wp_bind.mpr (wp_mono (fun _ _ hat' => ⟨rfl, hat'⟩) (wp_closeConnection hat hleaving))

/-! ## The terminal -/

theorem wp_drainPty {phase : Phase} (hphase : phase = .idle ∨ ∃ status, phase = .exited status)
    {rounds processed : Nat} (hat : At S log (st.hub phase)) :
    serving.wp () (ctx.drainPty rounds processed st).run
      (Settles fun st' log' => At S log' (st'.hub phase)) log := by
  have hcalm : ∀ st : LoopState, (st.hub phase).Calm := by
    rcases hphase with rfl | ⟨status, rfl⟩
    · exact fun st => ⟨rfl, trivial⟩
    · exact fun st => ⟨rfl, trivial⟩
  induction rounds generalizing processed st log with
  | zero => trivial
  | succ rounds ih =>
    rw [RunnerContext.drainPty]
    split
    · exact hat
    · refine wp_attempt_bind.mpr (wp_take fun r => ?_)
      rcases r with error | (_ | ⟨byte, bytes⟩)
      · have hon : ∀ capacity, (st.hub phase).On ⟨.process (.readPty capacity), .error error⟩
            (st.hub phase) := fun _ => .ptyError (hcalm st)
        refine ⟨⟨_, .event hat.serves (hon _)⟩, ?_⟩
        have hsafe : error.kind = .wouldBlock ∨ error.rawOsError = some 5 ∨
            error.kind = .interrupted →
              At S (⟨.process (.readPty ioChunkBytes), .error error⟩ :: log) (st.hub phase) := by
          intro hcases
          refine hat.take (hon _) (by simp [Breaking]) ?_
          simp only [SystemFailure, not_and, ne_eq]
          tauto
        by_cases hblock : error.kind = .wouldBlock
        · simp only [if_pos hblock]
          exact hsafe (.inl hblock)
        · by_cases heio : error.rawOsError = some 5
          · simp only [if_neg hblock, if_pos heio]
            refine wp_lift.mpr (wp_mono ?_ (wp_ioErrorEvent ctx _ (hsafe (.inr (.inl heio))) _ _))
            rintro _ log' ⟨⟨trace, rfl⟩, hat'⟩
            exact hat'
          · by_cases hinterrupt : error.kind = .interrupted
            · simp only [if_neg hblock, if_neg heio, if_pos hinterrupt]
              exact ih (hsafe (.inr (.inr hinterrupt)))
            · simp only [if_neg hblock, if_neg heio, if_neg hinterrupt]
              have hbroken : Broken (⟨.process (.readPty ioChunkBytes), .error error⟩ :: log) :=
                broken_of_on hat (hon _) (hcalm st) (.inr ⟨hblock, heio, hinterrupt⟩)
              exact wp_lift_bind.mpr (wp_brokenEvent ctx st hbroken _ _)
      · have hon : (st.hub phase).On ⟨.process (.readPty ioChunkBytes), .ok []⟩ (st.hub phase) :=
          .ptyEof (hcalm st)
        have hat' := hat.take hon (by simp [Breaking]) (by simp [SystemFailure])
        refine ⟨⟨_, hat'.serves⟩, wp_lift.mpr (wp_mono ?_ (wp_event ctx _ hat' _))⟩
        rintro _ log' ⟨⟨trace, rfl⟩, hat''⟩
        exact hat''
      · have hon : (st.hub phase).On ⟨.process (.readPty ioChunkBytes), .ok (byte :: bytes)⟩
            ((st.hub phase).extend (byte :: bytes)) := .readPty rfl hphase (List.cons_ne_nil _ _)
        have hat' := hat.take hon (by simp [Breaking]) (by simp [SystemFailure])
        refine ⟨⟨_, hat'.serves⟩, ?_⟩
        unfold Hub.extend at hat'
        dsimp only
        cases hactive : st.active with
        | none =>
          simp only [LoopState.hub, hactive] at hat'
          exact ih (by simpa only [LoopState.hub, hactive] using hat')
        | some c =>
          simp only [LoopState.hub, hactive] at hat'
          cases hqueue : enqueueOutput c (byte :: bytes) with
          | ok c' =>
            simp only [hqueue] at hat' ⊢
            exact ih hat'
          | error error =>
            simp only [hqueue] at hat' ⊢
            refine wp_lift_bind.mpr (wp_mono ?_ (wp_dropActive hat' (by simp)))
            rintro _ log' ⟨rfl, hat''⟩
            exact ih hat''

/-! ## The record -/

/-- A call that the hub takes no part in leaves it as it is, or breaks the loop. -/
theorem At.quiet (op : Call) (hat : At S log h) (hcalm : h.Calm) (hop : Quiet op)
    (r : op.Answer) (hs : ¬ SystemFailure ⟨op, r⟩) :
    Serves (⟨op, r⟩ :: log) h ∧ (¬ Breaking ⟨op, r⟩ → At S (⟨op, r⟩ :: log) h) ∧
      (Breaking ⟨op, r⟩ → Broken (⟨op, r⟩ :: log)) := by
  have hon : h.On ⟨op, r⟩ h := .quiet hop hcalm
  exact ⟨.event hat.serves hon, fun hb => hat.take hon hb hs,
    fun hb => broken_of_on hat hon hcalm (.inl hb)⟩

/-- Replacing a file settles. -/
theorem wp_atomicWrite {self : Self} {name : Name} {bytes : Bytes} (hat : At S log h)
    (hcalm : h.Calm) :
    serving.wp () (atomicWrite self name bytes).run (Settles fun _ log' => At S log' h) log := by
  unfold atomicWrite
  refine wp_settles (Q := fun _ log' => At S log' h) (wp_take fun r => ?_) fun fd log hat => ?_
  · obtain ⟨hserves, hok, herror⟩ := hat.quiet (.file (.createNew ..)) hcalm trivial r
      (by simp [SystemFailure])
    rcases r with error | fd
    · exact ⟨⟨_, hserves⟩, herror trivial⟩
    · exact ⟨⟨_, hserves⟩, hok (by simp [Breaking])⟩
  · refine wp_attempt_bind.mpr (wp_mono (Q := Settles fun _ log' => At S log' h) ?_ ?_)
    · rintro (error | _) log' hsettles
      · refine wp_ignore_bind.mpr (wp_take fun r => ?_)
        have hbroken := Broken.quiet
          (.file (.removeFile .atomicWrite (temporaryName name self.pid))) hsettles trivial r
        exact ⟨hbroken.1.imp fun _ hserves => hserves.1, hbroken⟩
      · exact hsettles
    · refine wp_settles (Q := fun _ log' => At S log' h) (wp_take fun r => ?_) fun _ log hat => ?_
      · obtain ⟨hserves, hok, herror⟩ := hat.quiet (.file (.writeAll ..)) hcalm trivial r
          (by simp [SystemFailure])
        rcases r with error | _
        · exact ⟨⟨_, hserves⟩, herror rfl⟩
        · exact ⟨⟨_, hserves⟩, hok (by simp [Breaking])⟩
      · refine wp_settles (Q := fun _ log' => At S log' h) (wp_take fun r => ?_)
          fun _ log hat => wp_take fun r => ?_
        · obtain ⟨hserves, hok, herror⟩ := hat.quiet (.file (.syncAll _)) hcalm trivial r
            (by simp [SystemFailure])
          rcases r with error | _
          · exact ⟨⟨_, hserves⟩, herror trivial⟩
          · exact ⟨⟨_, hserves⟩, hok (by simp [Breaking])⟩
        · obtain ⟨hserves, hok, herror⟩ := hat.quiet (.file (.rename ..)) hcalm trivial r
            (by simp [SystemFailure])
          rcases r with error | _
          · exact ⟨⟨_, hserves⟩, herror trivial⟩
          · exact ⟨⟨_, hserves⟩, hok (by simp [Breaking])⟩

theorem wp_writeLive (attached : Bool) (hat : At S log h) (hcalm : h.Calm) :
    serving.wp () (ctx.writeLive attached).run (Settles fun _ log' => At S log' h) log := by
  have hsmall := ctx.registry.serde.length_toVec_le (ctx.liveMetadata attached)
    ctx.session.length_toText
  unfold RunnerContext.writeLive Registry.writeMetadata
  dsimp only
  rw [if_neg (Nat.not_lt.mpr hsmall)]
  exact wp_atomicWrite hat hcalm

/-! ## Records -/

/-- Setting the window size settles. -/
theorem wp_setWindowSize {rows columns : UInt16} (hat : At S log h) (hsteady : h.leaving = none)
    (hphase : ¬ h.phase.Calm)
    (hon : h.On ⟨.process (.setWindowSize rows columns), .ok ()⟩ h') :
    serving.wp () (ask (process (.setWindowSize rows columns))).run
      (Settles fun _ log' => At S log' h') log := by
  refine wp_take fun r => ?_
  rcases r with error | _
  · have herror : h.On ⟨.process (.setWindowSize rows columns), .error error⟩
        { h with phase := .idle } := .windowError hsteady hphase
    exact ⟨⟨_, .event hat.serves herror⟩, broken_of_on hat herror ⟨hsteady, trivial⟩ (.inr trivial)⟩
  · have hat' := hat.take hon (by simp [Breaking]) (by simp [SystemFailure])
    exact ⟨⟨_, hat'.serves⟩, hat'⟩

/-- Applying the records of a connection. -/
theorem wp_applyActiveRecords {joining : Bool} {c : Connection} {records : List Record}
    {queue : ByteQueue}
    (hat : At S log { h with ptyInput := queue, phase := .applying joining c records })
    (hsteady : h.leaving = none) (hvalid : ∀ record ∈ records, record.Valid) :
    serving.wp () (applyActiveRecords c.stream queue records).run
      (Settles fun result log' =>
        if result.1 then
          At S log' { h with ptyInput := result.2, phase := .applying joining c [] }
        else
          At S log'
            { h with ptyInput := result.2, phase := .idle, leaving := some c.stream }) log := by
  induction records generalizing queue log with
  | nil => exact hat
  | cons record rest ih =>
    have hrest : ∀ record ∈ rest, record.Valid := fun r hr => hvalid r (List.mem_cons_of_mem _ hr)
    have hrefuse : Refused queue record → At S log
        { h with ptyInput := queue, phase := .idle, leaving := some c.stream } := fun hrefused =>
      hat.silent hsteady (.refuse rfl hrefused)
    cases record with
    | input bytes =>
      rw [applyActiveRecords]
      rcases hpush : queue.push bytes with ⟨queue', _ | _⟩
      · have hqueue : queue' = queue := ByteQueue.push_false hpush
        subst hqueue
        exact hrefuse (by rw [Refused, hpush])
      · have hon : ∀ r, Hub.On
            { h with
              ptyInput := queue
              phase := .applying joining c (.input bytes :: rest) }
            ⟨.note (.inputAccepted c.stream bytes), r⟩
            { h with ptyInput := queue', phase := .applying joining c rest } := by
          intro r
          have hfits : (queue.push bytes).2 = true := by rw [hpush]
          have hon := Hub.On.input
            (h := { h with
              ptyInput := queue
              phase := .applying joining c (.input bytes :: rest) }) hsteady rfl hfits
          rw [hpush] at hon
          exact hon
        refine wp_lift_bind.mpr (wp_hub hat (fun r => ⟨_, hon r⟩) fun r => ih ?_ hrest)
        exact hat.take (hon r) (by simp [Breaking]) (by simp [SystemFailure])
    | resize rows columns =>
      have hrange := hvalid (.resize rows columns) List.mem_cons_self
      have hon : Hub.On
          { h with
            ptyInput := queue
            phase := .applying joining c (.resize rows columns :: rest) }
          ⟨.process (.setWindowSize rows columns), .ok ()⟩
          { h with ptyInput := queue, phase := .applying joining c rest } := .resize hsteady rfl
      rw [applyActiveRecords]
      refine wp_settles (Q := fun _ log' => At S log'
        { h with ptyInput := queue, phase := .applying joining c rest }) ?_
        fun _ log hat => ih hat hrest
      rw [setWindowSize_valid hrange]
      exact wp_setWindowSize hat hsteady id hon
    | attach => exact hrefuse trivial
    | output => exact hrefuse trivial
    | stop => exact hrefuse trivial
    | exit => exact hrefuse trivial

/-! ## The active attachment -/

/-- The specification of a step of the loop: it leads from one hub between events to another. -/
def Steps (S : Prop) (p : LoopState → Io LoopState) : Prop :=
  ∀ st log, At S log (st.hub .idle) →
    serving.wp () (p st).run (Settles fun st' log' => At S log' (st'.hub .idle)) log

theorem wp_readActive {c : Connection} (hat : At S log (st.hub .idle)) (hactive : st.active = some c) :
    serving.wp () (ctx.readActive c st).run (Settles fun st' log' => At S log' (st'.hub .idle))
      log := by
  have hc : c.Steady := hat.serves.steady.active c hactive
  have hon : ∀ capacity r, (st.hub .idle).On ⟨.socket (.read c.stream capacity), r⟩
      ((st.hub .idle).readActive c r) := fun _ _ => .readActive rfl rfl hactive
  unfold RunnerContext.readActive
  refine wp_attempt_bind.mpr (wp_mono ?_ (wp_readRecords hc hat hon))
  rintro result log ⟨r, hat, hresult⟩
  unfold Hub.readActive at hat
  cases hr : c.receive r with
  | blocked =>
    simp only [hr] at hat hresult
    subst hresult
    have hsame : ({ st with active := some c } : LoopState).hub .idle = st.hub .idle := by
      simp only [LoopState.hub, hactive]
    show At S log (LoopState.hub { st with active := some c } .idle)
    rw [hsame]
    exact hat
  | failed =>
    simp only [hr] at hat hresult
    obtain ⟨error, rfl⟩ := hresult
    refine wp_lift_bind.mpr (wp_mono ?_ (wp_ioErrorEvent ctx _ hat _ _))
    rintro _ log ⟨⟨trace, rfl⟩, hat⟩
    refine wp_lift.mpr (wp_mono ?_ (wp_dropActive hat (by simp [hactive])))
    rintro _ log ⟨rfl, hat⟩
    exact hat
  | records c' records =>
    simp only [hr] at hat hresult
    subst hresult
    obtain ⟨-, -, hvalid⟩ := hc.receive hr
    refine wp_settles (wp_applyActiveRecords (h := { st.hub .idle with active := none }) hat rfl
      hvalid) ?_
    rintro ⟨accepted, ptyInput⟩ log hat
    cases accepted with
    | true => exact hat.silent rfl (.applied rfl)
    | false =>
      refine wp_lift_bind.mpr (wp_mono ?_ (wp_event ctx _ hat _))
      rintro _ log ⟨⟨trace, rfl⟩, hat⟩
      refine wp_lift.mpr (wp_mono ?_ (wp_dropActive hat rfl))
      rintro _ log ⟨rfl, hat⟩
      exact hat

theorem wp_flushPtyInput (hat : At S log (st.hub .idle)) :
    serving.wp () (ctx.flushPtyInput st) (fun st' log' => At S log' (st'.hub .idle)) log := by
  unfold RunnerContext.flushPtyInput
  refine wp_bind.mpr (wp_mono ?_ (wp_flushTerminal (h := st.hub .idle) hat rfl rfl))
  rintro ⟨ptyInput, error | _⟩ log hat
  · refine wp_bind.mpr (wp_mono ?_ (wp_ioErrorEvent ctx { st with ptyInput } hat _ _))
    rintro _ log ⟨⟨trace, rfl⟩, hat⟩
    refine wp_mono ?_ (wp_dropActive hat rfl)
    rintro _ log ⟨rfl, hat⟩
    exact hat
  · exact hat

theorem wp_flushActive {c : Connection} (hat : At S log (st.hub .idle))
    (hactive : st.active = some c) :
    serving.wp () (ctx.flushActive c st) (fun st' log' => At S log' (st'.hub .idle)) log := by
  have hsame : { st.hub .idle with active := some { c with output := c.output } } = st.hub .idle := by
    simp only [LoopState.hub, hactive]
  unfold RunnerContext.flushActive
  refine wp_bind.mpr (wp_mono ?_ (wp_flushConnection (hsame ▸ hat) rfl (.inl rfl)))
  rintro ⟨output, error | _⟩ log hat
  · refine wp_bind.mpr (wp_mono ?_ (wp_ioErrorEvent ctx _ hat _ _))
    rintro _ log ⟨⟨trace, rfl⟩, hat⟩
    refine wp_mono ?_ (wp_dropActive hat (by simp [hactive]))
    rintro _ log ⟨rfl, hat⟩
    exact hat
  · exact hat

theorem steps_event (event : String) : Steps S fun st => liftM (ctx.event st event) := by
  intro st log hat
  refine wp_lift.mpr (wp_mono ?_ (wp_event ctx _ hat event))
  rintro _ log ⟨⟨trace, rfl⟩, hat⟩
  exact hat

/-- A step that is made or not. -/
theorem Steps.ite {p : LoopState → Io LoopState} (hp : Steps S p) {c : Prop} [Decidable c] :
    Steps S fun st => if c then p st else pure st := by
  intro st log hat
  split
  · exact hp st log hat
  · exact hat

theorem steps_writeIfReady (event : PollFlags) : Steps S (ctx.writeIfReady event) := by
  intro st log hat
  unfold RunnerContext.writeIfReady
  split
  · rename_i c hactive
    split
    · exact wp_lift.mpr (wp_flushActive ctx hat hactive)
    · exact hat
  · exact hat

theorem steps_readIfReady (event : PollFlags) : Steps S (ctx.readIfReady event) := by
  intro st log hat
  unfold RunnerContext.readIfReady
  split
  · rename_i c hactive
    split
    · exact wp_readActive ctx hat hactive
    · exact hat
  · exact hat

theorem steps_handleActive (event : PollFlags) : Steps S (ctx.handleActive event) := by
  intro st log hat
  unfold RunnerContext.handleActive
  refine wp_settles ((steps_event ctx "attachment_poll_hangup").ite st log hat) fun st log hat => ?_
  refine wp_settles ((steps_event ctx "attachment_poll_error").ite st log hat) fun st log hat => ?_
  refine wp_settles (steps_writeIfReady ctx event st log hat) fun st log hat => ?_
  refine wp_settles (steps_readIfReady ctx event st log hat) fun st log hat => ?_
  refine wp_settles (Q := fun _ log' => At S log' (st.hub .idle)) ?_ fun _ log hat => hat
  split
  · exact wp_writeLive ctx false hat ⟨rfl, trivial⟩
  · exact hat

/-! ## The candidate -/

/-- A connection that broke the loop while it was vetted is closed. -/
theorem wp_turnAway_broken {stream : Fd} (hserves : Serves log h) (hsteady : h.leaving = none)
    (hphase : h.phase = .accepted stream) (hbroken : ¬ Unbroken log) :
    serving.wp () (socket (.close stream)) (fun _ log' => Broken log') log := by
  have hleft := Serves.silent hserves hsteady (.turnAway hphase)
  refine wp_take fun r => ?_
  have hclosed : Serves (⟨.socket (.close stream), r⟩ :: log) _ :=
    .event hleft (.closeLeaving rfl)
  refine ⟨⟨_, hclosed⟩, ⟨_, hclosed, rfl, trivial⟩, fun hlog => hbroken fun e he => ?_⟩
  exact hlog e (List.mem_cons_of_mem _ he)

theorem steps_acceptCandidate (rounds : Nat) : Steps S (ctx.acceptCandidate rounds) := by
  induction rounds with
  | zero => exact fun _ _ _ => trivial
  | succ rounds ih =>
    intro st log hat
    rw [RunnerContext.acceptCandidate]
    refine wp_attempt_bind.mpr (wp_take fun r => ?_)
    rcases r with error | stream
    · have hon : (st.hub .idle).On ⟨.socket (.accept ctx.files.listener), .error error⟩
          (st.hub .idle) := .acceptError ⟨rfl, trivial⟩
      refine ⟨⟨_, .event hat.serves hon⟩, ?_⟩
      by_cases hblock : error.kind = .wouldBlock
      · simp only [if_pos hblock]
        exact hat.take hon (by simp [Breaking, hblock]) (by simp [SystemFailure])
      · simp only [if_neg hblock]
        exact broken_of_on hat hon ⟨rfl, trivial⟩ (.inl hblock)
    · have hon : (st.hub .idle).On ⟨.socket (.accept ctx.files.listener), .ok stream⟩
          { st.hub .idle with phase := .accepted stream } := .accept rfl rfl
      have hat' := hat.take hon (by simp [Breaking]) (by simp [SystemFailure])
      refine ⟨⟨_, hat'.serves⟩, wp_attempt_bind.mpr (wp_take fun r => ?_)⟩
      obtain ⟨hserves, hok, herror⟩ := hat'.quiet (.socket (.peerUid stream))
        ⟨rfl, trivial⟩ trivial r
        (by simp [SystemFailure])
      refine ⟨⟨_, hserves⟩, ?_⟩
      rcases r with error | uid
      · exact wp_lift_bind.mpr (wp_turnAway_broken hserves rfl rfl (herror trivial).2)
      · have hvetted := hok (by simp [Breaking])
        dsimp only
        by_cases huid : uid = ctx.self.uid
        · rw [if_neg (not_not.mpr huid)]
          refine wp_attempt_bind.mpr (wp_take fun r => ?_)
          obtain ⟨hserves, hok, herror⟩ := hvetted.quiet (.socket (.setNonblocking stream true))
            ⟨rfl, trivial⟩ trivial r (by simp [SystemFailure])
          refine ⟨⟨_, hserves⟩, ?_⟩
          rcases r with error | _
          · exact wp_lift_bind.mpr (wp_turnAway_broken hserves rfl rfl (herror trivial).2)
          · -- The new connection is the candidate; the one before it is closed after the trace.
            have hadmitted := (hok (by simp [Breaking])).silent rfl (.seat rfl)
            refine wp_settles (Q := fun st' log' => (∃ trace, st' = { st with trace }) ∧ At S log'
              { st.hub .idle with
                candidate := some (.new stream)
                leaving := st.candidate.map (·.stream) }) ?_ ?_
            · split
              · exact wp_lift.mpr (wp_event ctx _ hadmitted _)
              · exact ⟨⟨st.trace, rfl⟩, hadmitted⟩
            · rintro _ log ⟨⟨trace, rfl⟩, hat⟩
              refine wp_lift_bind.mpr (wp_mono ?_ (wp_event ctx _ hat _))
              rintro _ log ⟨⟨trace', rfl⟩, hat⟩
              refine wp_lift_bind.mpr (wp_mono (fun _ log hat => ?_) (wp_closeConnection hat rfl))
              exact ih _ log hat
        · rw [if_pos huid]
          have hleft := hvetted.silent rfl (.turnAway rfl)
          refine wp_lift_bind.mpr (wp_mono ?_ (wp_event ctx _ hleft _))
          rintro _ log ⟨⟨trace, rfl⟩, hat⟩
          refine wp_lift_bind.mpr (wp_mono (fun _ log hat => ?_) (wp_leave hat rfl))
          exact ih _ log hat

theorem wp_activate (st : LoopState) {c : Connection} {rows columns : UInt16} {rest : List Record}
    (hat : At S log (st.hub (.greeting c (.attach rows columns :: rest)))) :
    serving.wp () (ctx.activate c rows columns rest st).run
      (Settles fun st' log' => At S log' (st'.hub .idle)) log := by
  have hsteady := hat.serves.steady
  obtain ⟨hc, hempty, hvalid⟩ : c.Steady ∧ c.output.bytes = [] ∧
    ∀ record ∈ Record.attach rows columns :: rest, record.Valid := hsteady.phase
  have htail : st.tail.capacity = outputTailBytes := hsteady.tail
  obtain ⟨c', hreplay⟩ := enqueueReplay_fits htail hempty hc.limit
  have hrange := hvalid (.attach rows columns) List.mem_cons_self
  have hrest : ∀ record ∈ rest, record.Valid := fun r hr => hvalid r (List.mem_cons_of_mem _ hr)
  unfold RunnerContext.activate
  refine wp_settles (Q := fun _ log' => At S log' (st.hub (.applying true c' rest))) ?_ ?_
  · rw [setWindowSize_valid hrange]
    exact wp_setWindowSize hat rfl id (.attach rfl rfl hreplay)
  · intro _ log hat
    rw [hreplay]
    refine wp_settles (Q := fun connection log' => c' = connection ∧
      At S log' (st.hub (.applying true c' rest))) ⟨rfl, hat⟩ ?_
    rintro _ log ⟨rfl, hat⟩
    refine wp_settles (wp_applyActiveRecords (h := st.hub .idle) hat rfl hrest) ?_
    rintro ⟨accepted, ptyInput⟩ log hat
    cases accepted with
    | false => exact wp_lift_bind.mpr (wp_mono (fun _ _ hat => hat) (wp_leave hat rfl))
    | true =>
      refine wp_settles (Q := fun st' log' => (∃ trace, st' = { st with ptyInput, trace }) ∧
        At S log' { st.hub .idle with ptyInput, phase := .applying true c' [] }) ?_ ?_
      · split
        · exact wp_lift.mpr (wp_event ctx { st with ptyInput } hat _)
        · exact ⟨⟨st.trace, rfl⟩, hat⟩
      · rintro _ log ⟨⟨trace, rfl⟩, hat⟩
        refine wp_lift_bind.mpr (wp_mono ?_ (wp_event ctx _ hat _))
        rintro _ log ⟨⟨trace', rfl⟩, hat⟩
        have hon : ∀ r, Hub.On { st.hub .idle with ptyInput, phase := .applying true c' [] }
            ⟨.note (.activated c'.stream), r⟩
            { st.hub .idle with
              ptyInput
              active := some c'
              leaving := st.active.map (·.stream) } := fun _ => .activate rfl rfl
        refine wp_lift_bind.mpr (wp_hub hat (fun r => ⟨_, hon r⟩) fun r => ?_)
        have hactive := hat.take (hon r) (by simp [Breaking]) (by simp [SystemFailure])
        refine wp_lift_bind.mpr (wp_mono (fun _ log hat => ?_) (wp_closeConnection hactive rfl))
        exact wp_settles (wp_writeLive ctx true hat ⟨rfl, trivial⟩) fun _ _ hat => hat

/-- What handling the candidate comes to: the loop goes on, or a client has stopped the session. -/
def Handled (S : Prop) (result : Bool × LoopState) (log : RunnerLog) : Prop :=
  if result.1 then ∃ stream, At S log (result.2.hub (.stopped stream))
  else At S log (result.2.hub .idle)

theorem wp_handleCandidate {c : Connection} (hat : At S log (st.hub .idle))
    (hcandidate : st.candidate = some c) :
    serving.wp () (ctx.handleCandidate c st).run (Settles (Handled S)) log := by
  obtain ⟨hc, -⟩ := hat.serves.steady.candidate c hcandidate
  have hon : ∀ capacity r, (st.hub .idle).On ⟨.socket (.read c.stream capacity), r⟩
      ((st.hub .idle).readCandidate c r) := fun _ _ => .readCandidate rfl rfl hcandidate
  unfold RunnerContext.handleCandidate
  refine wp_attempt_bind.mpr (wp_mono ?_ (wp_readRecords hc hat hon))
  rintro result log ⟨r, hat, hresult⟩
  unfold Hub.readCandidate at hat
  cases hr : c.receive r with
  | blocked =>
    simp only [hr] at hat hresult
    subst hresult
    have hsame : ({ st with candidate := some c } : LoopState).hub .idle = st.hub .idle := by
      simp only [LoopState.hub, hcandidate]
    show At S log (LoopState.hub { st with candidate := some c } .idle)
    rw [hsame]
    exact hat
  | failed =>
    simp only [hr] at hat hresult
    obtain ⟨error, rfl⟩ := hresult
    refine wp_lift_bind.mpr (wp_mono ?_ (wp_ioErrorEvent ctx _ hat _ _))
    rintro _ log ⟨⟨trace, rfl⟩, hat⟩
    refine wp_lift_bind.mpr (wp_mono ?_ (wp_dropCandidate hat (by simp [hcandidate])))
    rintro _ log ⟨rfl, hat⟩
    exact hat
  | records c' records =>
    obtain ⟨hstream, -⟩ := receive_records hr
    simp only [hr] at hat hresult
    subst hresult
    have hdismiss : ∀ record rest, records = record :: rest →
        (∀ rows columns, record ≠ .attach rows columns) → record :: rest ≠ [.stop] →
          serving.wp () (ctx.dismissCandidate st).run (Settles (Handled S)) log := by
      rintro record rest rfl hattach hstop
      have hleft := hat.silent rfl (.dismiss rfl
        (fun rows columns h => hattach rows columns (Option.some.inj h)) hstop)
      refine wp_lift_bind.mpr (wp_mono ?_ (wp_event ctx _ hleft _))
      rintro _ log ⟨⟨trace, rfl⟩, hat⟩
      refine wp_lift_bind.mpr (wp_mono ?_ (wp_dropCandidate hat (by simp [hcandidate, hstream])))
      rintro _ log ⟨rfl, hat⟩
      exact hat
    rcases records with _ | ⟨record, rest⟩
    · exact hat
    · cases record with
      | attach rows columns =>
        refine wp_settles (wp_activate ctx { st with candidate := none } hat) ?_
        exact fun st' log hat => hat
      | stop =>
        rcases rest with _ | ⟨next, rest⟩
        · have hleft := hat.silent rfl (.stop rfl)
          refine wp_lift_bind.mpr (wp_mono ?_ (wp_event ctx _ hleft _))
          rintro _ log ⟨⟨trace, rfl⟩, hat⟩
          refine wp_lift_bind.mpr (wp_mono ?_
            (wp_dropCandidate hat (by simp [hcandidate, hstream])))
          rintro _ log ⟨rfl, hat⟩
          have hon : ∀ r, Hub.On { st.hub (.stopping c'.stream) with candidate := none }
              ⟨.note (.stopRequested c'.stream), r⟩
              { st.hub (.stopped c'.stream) with candidate := none } := fun _ => .stop rfl rfl
          refine wp_lift_bind.mpr (wp_hub hat (fun r => ⟨_, hon r⟩) fun r => ⟨c'.stream, ?_⟩)
          exact hat.take (hon r) (by simp [Breaking]) (by simp [SystemFailure])
        · exact hdismiss _ _ rfl (by simp) (by simp)
      | input => exact hdismiss _ _ rfl (by simp) (by simp)
      | output => exact hdismiss _ _ rfl (by simp) (by simp)
      | resize => exact hdismiss _ _ rfl (by simp) (by simp)
      | exit => exact hdismiss _ _ rfl (by simp) (by simp)

/-! ## Turns -/

theorem wp_handleEvents {events : PollReply} {polled : PollRequest}
    (hat : At S log (st.hub .idle)) :
    serving.wp () (ctx.handleEvents events polled st).run (Settles (Handled S)) log := by
  have hflush : Steps S fun st => liftM (ctx.flushPtyInput st) := fun st log hat =>
    wp_lift.mpr (wp_flushPtyInput ctx hat)
  unfold RunnerContext.handleEvents
  refine wp_settles (hflush.ite st log hat) fun st log hat => ?_
  refine wp_settles ((steps_handleActive ctx _).ite st log hat) fun st log hat => ?_
  refine wp_settles ((steps_acceptCandidate ctx _).ite st log hat) fun st log hat => ?_
  split
  · split
    · rename_i c hcandidate
      exact wp_handleCandidate ctx hat hcandidate
    · exact hat
  · exact hat

theorem steps_outputQueueFull : Steps S ctx.outputQueueFull := by
  intro st log hat
  unfold RunnerContext.outputQueueFull
  refine wp_lift_bind.mpr (wp_mono ?_ (wp_event ctx _ hat _))
  rintro _ log ⟨⟨trace, rfl⟩, hat⟩
  exact wp_settles (wp_writeLive ctx false hat ⟨rfl, trivial⟩) fun _ _ hat => hat

/-- Where a turn of the loop leads. -/
def TurnEnds (S : Prop) : Turn → RunnerLog → Prop
  | .again st, log => At S log (st.hub .idle)
  | .exited st exit, log =>
    ∃ status, exit = processExit status ∧ At S log (st.hub (.exited status))
  | .stopRequested st, log => ∃ stream, At S log (st.hub (.stopped stream))

theorem wp_tick (hat : At S log (st.hub .idle)) :
    serving.wp () (ctx.tick st).run (Settles (TurnEnds S)) log := by
  unfold RunnerContext.tick
  dsimp only
  refine wp_settles (wp_drainPty ctx (.inl rfl) hat) fun st log hat => ?_
  refine wp_settles ((steps_outputQueueFull ctx).ite st log hat) fun st log hat => ?_
  refine wp_settles (Q := fun status log' => At S log' (st.hub (status.elim .idle .exited)))
    (wp_take fun r => ?_) fun status log hat => ?_
  · rcases r with error | (_ | status)
    · have hon : (st.hub .idle).On ⟨.process .tryWait, .error error⟩ (st.hub .idle) :=
        .wait ⟨rfl, trivial⟩ (.inr (by rintro status ⟨⟩))
      exact ⟨⟨_, .event hat.serves hon⟩, broken_of_on hat hon ⟨rfl, trivial⟩ (.inr trivial)⟩
    · have hon : (st.hub .idle).On ⟨.process .tryWait, .ok none⟩ (st.hub .idle) :=
        .wait ⟨rfl, trivial⟩ (.inr (by rintro status ⟨⟩))
      have hat := hat.take hon (by simp [Breaking]) (by simp [SystemFailure])
      exact ⟨⟨_, hat.serves⟩, hat⟩
    · have hon : (st.hub .idle).On ⟨.process .tryWait, .ok (some status)⟩
          (st.hub (.exited status)) := .exit rfl rfl
      have hat := hat.take hon (by simp [Breaking]) (by simp [SystemFailure])
      exact ⟨⟨_, hat.serves⟩, hat⟩
  · cases status with
    | some status =>
      refine wp_lift_bind.mpr (wp_mono ?_ (wp_event ctx _ hat _))
      rintro _ log ⟨⟨trace, rfl⟩, hat⟩
      exact ⟨status, rfl, hat⟩
    | none =>
      refine wp_attempt_bind.mpr (wp_take fun r => ?_)
      have hon : ∀ r, (st.hub .idle).On ⟨.process (.poll (RunnerContext.pollRequest st)), r⟩
          (st.hub .idle) := fun _ => .quiet trivial ⟨rfl, trivial⟩
      refine ⟨⟨_, .event hat.serves (hon r)⟩, ?_⟩
      rcases r with error | events
      · by_cases hinterrupt : error.kind = .interrupted
        · simp only [if_pos hinterrupt]
          exact hat.take (hon _) (by simp [Breaking]) (by simp [SystemFailure, hinterrupt])
        · simp only [if_neg hinterrupt]
          have hbroken := broken_of_on hat (hon (.error error)) ⟨rfl, trivial⟩ (.inr hinterrupt)
          exact wp_lift_bind.mpr (wp_brokenEvent ctx st hbroken _ _)
      · have hat := hat.take (hon (.ok events)) (by simp [Breaking]) (by simp [SystemFailure])
        refine wp_settles (wp_handleEvents ctx hat) ?_
        rintro ⟨stop, st⟩ log hhandled
        cases stop <;> exact hhandled

/-- **The loop serves as a hub**: it ends with the child's exit, with a client's stop, or broken. -/
theorem wp_eventLoop {rounds : Nat} (hat : At S log (st.hub .idle)) :
    serving.wp () (ctx.eventLoop rounds st).run
      (Settles fun turn log' => TurnEnds S turn log' ∧ ∀ st, turn ≠ .again st) log := by
  induction rounds generalizing st log with
  | zero => trivial
  | succ rounds ih =>
    rw [RunnerContext.eventLoop]
    refine wp_settles (wp_tick ctx hat) fun turn log hends => ?_
    cases turn with
    | again st => exact ih hends
    | exited st exit => exact ⟨hends, nofun⟩
    | stopRequested st => exact ⟨hends, nofun⟩

end loop

end AfkCli
