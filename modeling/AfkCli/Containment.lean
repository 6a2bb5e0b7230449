import AfkCli.Provenance

/-!
# Faults of one connection

A stream that fails, is malformed or out of protocol costs its own connection and nothing else: the
next thing the runner does is to close it, and the event loop goes on. The loop itself ends with the
child's exit or a client's stop, unless the system fails or one of a few calls does.

## Main definitions

* `Proper`, `WellFormed`: the streams a client may send
* `Faulty`: the events by which a connection fails
* `Contained`: after a fault, the connection is closed

## Main results

* `Serves.contained`: a hub contains the faults of its connections
* `client_bytes`: no client's bytes end the event loop or spoil the completion
-/

namespace AfkCli

open Interaction

/-- The records of a connection are in protocol. -/
def Proper (records : List Record) : Prop :=
  records = [] ∨ records = [.stop] ∨ Attached records

/-- The bytes are records in protocol, and a part of one. -/
def WellFormed (bytes : Bytes) : Prop :=
  (∃ rest, (ipcFormat.drain bytes).2 = .ok rest) ∧ Proper (ipcFormat.drain bytes).1

/-- The error is not one after which the call is made again. -/
def IoError.Fatal (error : IoError) : Prop := ¬ (error.kind = .wouldBlock ∨ error.kind = .interrupted)

/-- The event, after the log, shows that the connection is at its end, fails, or is not in
protocol. -/
def Faulty (fd : Fd) (log : RunnerLog) : RunnerEvent → Prop
  | ⟨.socket (.read stream _), .ok []⟩ => stream = fd
  | ⟨.socket (.read stream _), .ok (byte :: bytes)⟩ =>
    stream = fd ∧ ¬ WellFormed (received fd log ++ (byte :: bytes))
  | ⟨.socket (.read stream _), .error error⟩ => stream = fd ∧ error.Fatal
  | ⟨.socket (.write stream _), .ok 0⟩ => stream = fd
  | ⟨.socket (.write stream _), .error error⟩ => stream = fd ∧ error.Fatal
  | _ => False

/-- Events that may come before the connection is closed: the trace, and the records before the
one that is out of protocol. -/
def Passing : RunnerEvent → Prop
  | ⟨.process (.setWindowSize ..), .ok ()⟩ => True
  | ⟨.note (.inputAccepted ..), _⟩ => True
  | e => Traces e.op

/-- The connection has failed and is not closed yet. -/
def Owes (fd : Fd) : RunnerLog → Prop
  | [] => False
  | e :: log => Faulty fd log e ∨ Passing e ∧ Owes fd log

/-- The event reads or writes the connection. -/
def Touching (fd : Fd) (e : RunnerEvent) : Prop :=
  (∃ capacity, e.op = .socket (.read fd capacity)) ∨ ∃ bytes, e.op = .socket (.write fd bytes)

/-- The last thing that happened was a read or a write of the connection. -/
def Touches (fd : Fd) : RunnerLog → Prop
  | [] => False
  | e :: log => Touching fd e ∨ Passing e ∧ Touches fd log

/-- The event is the child's exit, or a client's stop. -/
def Ending : RunnerEvent → Prop
  | ⟨.process .tryWait, .ok (some _)⟩ => True
  | ⟨.note (.stopRequested _), _⟩ => True
  | _ => False

/-- After each fault, the connection is closed; and until the session is over, a read or a write of
one connection closes no other one. -/
def Contained : RunnerLog → Prop
  | [] => True
  | e :: log => Contained log ∧
    (∀ fd, Owes fd log → Passing e ∨ SystemFailure e ∨ e.op = .socket (.close fd)) ∧
    ∀ fd other, Touches fd log → e.op = .socket (.close other) →
      other = fd ∨ ∃ e' ∈ log, Ending e'

/-! ## Containment -/

/-- The connection whose records are being taken. -/
def Phase.taking : Phase → Option Fd
  | greeting c _ | applying _ c _ => some c.stream
  | _ => none

/-- The hub is about to close the connection. -/
def Hub.Quits (h : Hub) (fd : Fd) (log : RunnerLog) : Prop :=
  h.leaving = some fd ∨
    h.leaving = none ∧ h.phase.taking = some fd ∧ ¬ WellFormed (received fd log)

theorem Phase.Calm.taking {phase : Phase} (h : phase.Calm) : phase.taking = none := by
  cases phase <;> first
    | rfl
    | exact h.elim

section containment

variable {log : RunnerLog} {h h' : Hub} {e : RunnerEvent} {fd : Fd}

theorem Hub.Calm.not_quits (hcalm : h.Calm) : ¬ h.Quits fd log := by
  rintro (hleaving | ⟨-, htaking, -⟩)
  · rw [hcalm.leaving] at hleaving
    cases hleaving
  · rw [hcalm.phase.taking] at htaking
    cases htaking

theorem not_quits_idle (hleaving : h.leaving = none) (hphase : h.phase.taking = none) :
    ¬ h.Quits fd log := by
  rintro (hquits | ⟨-, htaking, -⟩)
  · rw [hleaving] at hquits
    cases hquits
  · rw [hphase] at htaking
    cases htaking

/-- A connection all of whose records were applied is in protocol. -/
theorem wellFormed_of_applied {c : Connection} {applied : List Record}
    (hfed : Fed log c applied []) (hattached : Attached applied) :
    WellFormed (received c.stream log) := by
  rw [WellFormed, hfed.stream, List.append_nil]
  exact ⟨⟨_, rfl⟩, .inr (.inr hattached)⟩

theorem passing_of_traces {op : Call} (hop : Traces op) (r : op.Answer) : Passing ⟨op, r⟩ := by
  unfold Passing
  split
  · trivial
  · trivial
  · exact hop

/-- While a connection waits to be closed, the hub does nothing else. -/
theorem Hub.Quits.next (hquits : h.Quits fd log) (hinput : InputInv log h) (hon : h.On e h') :
    Passing e ∨ SystemFailure e ∨ e.op = .socket (.close fd) := by
  have hidle : h.leaving = none → h.phase.taking = none → False := fun hleaving htaking =>
    not_quits_idle hleaving htaking hquits
  cases hon with
  | trace hop => exact .inl (passing_of_traces hop _)
  | attach | resize | input => exact .inl trivial
  | windowError => exact .inr (.inl trivial)
  | closeLeaving hleaving =>
    rcases hquits with hquits | ⟨hnone, -⟩
    · rw [hleaving] at hquits
      cases hquits
      exact .inr (.inr rfl)
    · rw [hleaving] at hnone
      cases hnone
  | @activate c hsteady hphase =>
    -- all its records were applied, so the connection is in protocol
    have hfed := hinput.phase
    rw [hphase] at hfed
    obtain ⟨applied, happlied, hfed⟩ := hfed
    rcases hquits with hquits | ⟨-, htaking, hmalformed⟩
    · rw [hsteady] at hquits
      cases hquits
    · rw [hphase] at htaking
      cases htaking
      exact absurd (wellFormed_of_applied hfed happlied) hmalformed
  | quiet _ hcalm | ptyEof hcalm | ptyError hcalm | acceptError hcalm | wait hcalm =>
    exact absurd hquits hcalm.not_quits
  | readPty hsteady hphase =>
    refine absurd ?_ (hidle hsteady)
    rcases hphase with hphase | ⟨status, hphase⟩ <;> rw [hphase] <;> rfl
  | writeActive hsteady hphase =>
    refine absurd ?_ (hidle hsteady)
    rcases hphase with hphase | hended
    · rw [hphase]
      rfl
    · exact hended.calm.taking
  | close hsteady hended => exact absurd hended.calm.taking (hidle hsteady)
  | writePty hsteady hphase | readActive hsteady hphase | readCandidate hsteady hphase
  | accept hsteady hphase | stop hsteady hphase | exit hsteady hphase =>
    refine absurd ?_ (hidle hsteady)
    rw [hphase]
    rfl

/-- An event that is no fault leaves a connection waiting to be closed, or closes it. -/
theorem Hub.Quits.pass (hquits : h.Quits fd log) (hon : h.On e h') (hpassing : Passing e) :
    h'.Quits fd (e :: log) := by
  have hkept : received fd (e :: log) = received fd log := by
    refine received_cons ?_
    unfold Passing at hpassing
    split at hpassing
    · rfl
    · rfl
    · exact (noInput_of_traces hpassing _).1.received fd
  cases hon with
  | trace hop =>
    rw [Hub.Quits, hkept]
    exact hquits
  | @attach c c' _ _ _ hsteady hphase hreplay =>
    rcases hquits with hquits | ⟨-, htaking, hmalformed⟩
    · rw [hsteady] at hquits
      cases hquits
    · rw [hphase] at htaking
      refine .inr ⟨hsteady, ?_, ?_⟩
      · rw [← htaking]
        exact congrArg some (enqueueReplay_same hreplay).stream
      · rw [hkept]
        exact hmalformed
  | resize hsteady hphase | input hsteady hphase =>
    rcases hquits with hquits | ⟨-, htaking, hmalformed⟩
    · rw [hsteady] at hquits
      cases hquits
    · rw [hphase] at htaking
      refine .inr ⟨hsteady, htaking, ?_⟩
      rw [hkept]
      exact hmalformed
  | quiet _ hcalm => exact absurd hquits hcalm.not_quits
  | _ => exact hpassing.elim

/-- A read of a connection that shows a fault. -/
theorem failed_of_faulty {c : Connection} {capacity : Nat} {r : Except IoError Bytes}
    (hfaulty : Faulty fd log ⟨.socket (.read c.stream capacity), r⟩) :
    c.stream = fd ∧ (c.receive r = .failed ∨ ∃ c' records, c.receive r = .records c' records ∧
      ¬ WellFormed (received fd (⟨.socket (.read c.stream capacity), r⟩ :: log))) := by
  rcases r with error | (_ | ⟨byte, bytes⟩)
  · obtain ⟨hstream, hfatal⟩ := hfaulty
    exact ⟨hstream, .inl (if_neg hfatal)⟩
  · exact ⟨hfaulty, .inl rfl⟩
  · obtain ⟨rfl, hmalformed⟩ := hfaulty
    refine ⟨rfl, ?_⟩
    cases hr : c.receive (.ok (byte :: bytes)) with
    | blocked =>
      have hnothing := receivedBy_of_blocked hr c.stream capacity c.stream
      simp [receivedBy] at hnothing
    | failed => exact .inl rfl
    | records c' records =>
      refine .inr ⟨c', records, rfl, ?_⟩
      simpa only [received, receivedBy, if_pos] using hmalformed

/-- A fault makes the hub give up the connection. -/
theorem Hub.On.quits (hon : h.On e h') (hinput : InputInv log h) (hfaulty : Faulty fd log e) :
    h'.Quits fd (e :: log) := by
  cases hon with
  | @readActive c capacity r hsteady hphase hactive =>
    obtain ⟨rfl, hfailed | ⟨c', records, hr, hmalformed⟩⟩ := failed_of_faulty hfaulty
    · simp only [Hub.readActive, hfailed]
      exact .inl rfl
    · simp only [Hub.readActive, hr]
      exact .inr ⟨hsteady, congrArg some (receive_records hr).1, hmalformed⟩
  | @readCandidate c capacity r hsteady hphase hcandidate =>
    obtain ⟨rfl, hfailed | ⟨c', records, hr, hmalformed⟩⟩ := failed_of_faulty hfaulty
    · simp only [Hub.readCandidate, hfailed]
      exact .inl rfl
    · cases records with
      | nil =>
        -- nothing was decoded yet, which is in protocol
        have hdrain := ((hinput.candidate c hcandidate).receive capacity hr).stream
        rw [(receive_records hr).1] at hdrain
        refine absurd ?_ hmalformed
        rw [WellFormed, hdrain]
        exact ⟨⟨_, rfl⟩, .inl rfl⟩
      | cons record records =>
        simp only [Hub.readCandidate, hr]
        exact .inr ⟨hsteady, congrArg some (receive_records hr).1, hmalformed⟩
  | @writeActive c r hsteady hphase hactive =>
    have hfails : c.stream = fd ∧ c.output.afterWrite r = none := by
      rcases r with error | (_ | n)
      · exact ⟨hfaulty.1, if_neg hfaulty.2⟩
      · exact ⟨hfaulty, rfl⟩
      · exact hfaulty.elim
    obtain ⟨rfl, hfails⟩ := hfails
    simp only [Hub.writeActive, hfails]
    exact .inl rfl
  | @quiet op r hop =>
    rcases op with op | op | op | op | op <;> cases op <;> first
      | exact hfaulty.elim
      | exact hop.elim
  | @trace op r hop =>
    rcases op with op | op | op | op | op <;> cases op <;> first
      | exact hfaulty.elim
      | exact hop.elim
  | _ => exact hfaulty.elim

theorem Hub.Quits.silent (hquits : h.Quits fd log) (hinput : InputInv log h)
    (hsteady : h.leaving = none) (hsilent : h.Silent h') : h'.Quits fd log := by
  obtain ⟨htaking, hmalformed⟩ : h.phase.taking = some fd ∧ ¬ WellFormed (received fd log) := by
    rcases hquits with hquits | ⟨-, htaking⟩
    · rw [hsteady] at hquits
      cases hquits
    · exact htaking
  have hfed := hinput.phase
  cases hsilent with
  | seat hphase | turnAway hphase =>
    rw [hphase] at htaking
    cases htaking
  | dismiss hphase =>
    rw [hphase] at htaking
    exact .inl htaking
  | refuse hphase =>
    rw [hphase] at htaking
    exact .inl htaking
  | @stop c hphase =>
    rw [hphase] at htaking hfed
    cases htaking
    refine absurd ?_ hmalformed
    rw [WellFormed, hfed.stream]
    exact ⟨⟨_, rfl⟩, .inr (.inl rfl)⟩
  | @applied c hphase =>
    rw [hphase] at htaking hfed
    cases htaking
    obtain ⟨applied, happlied, hfed⟩ := hfed
    exact absurd (wellFormed_of_applied hfed happlied) hmalformed
  | finish hended =>
    rw [hended.calm.taking] at htaking
    cases htaking

/-! ## Confinement -/

/-- Nothing but the connection is about to be closed. -/
structure Hub.Confined (h : Hub) (fd : Fd) : Prop where
  leaving : h.leaving = none ∨ h.leaving = some fd
  taking : ∀ stream, h.phase.taking = some stream → stream = fd
  vetted : ∀ stream, h.phase ≠ .accepted stream

theorem Hub.Confined.calm {phase : Phase} (hphase : h.phase = phase) (hcalm : phase.Calm)
    (hvetted : ∀ stream, phase ≠ .accepted stream)
    (hleaving : h.leaving = none ∨ h.leaving = some fd) : h.Confined fd := by
  subst hphase
  refine ⟨hleaving, fun stream htaking => ?_, hvetted⟩
  rw [hcalm.taking] at htaking
  cases htaking

theorem Phase.Ended.not_accepted {phase : Phase} (hended : phase.Ended) (stream : Fd) :
    phase ≠ .accepted stream := by
  rintro rfl
  exact hended

/-- A read or a write gives up at most its own connection. -/
theorem Hub.On.confined (hon : h.On e h') (htouching : Touching fd e) : h'.Confined fd := by
  cases hon with
  | @readActive c capacity r hsteady hphase hactive =>
    obtain rfl : c.stream = fd := by simpa [Touching] using htouching
    unfold Hub.readActive
    cases hr : c.receive r with
    | blocked => exact .calm hphase trivial nofun (.inl hsteady)
    | failed => exact .calm hphase trivial nofun (.inr rfl)
    | records c' records =>
      refine ⟨.inl hsteady, fun stream htaking => ?_, nofun⟩
      rw [← Option.some.inj htaking]
      exact (receive_records hr).1
  | @readCandidate c capacity r hsteady hphase hcandidate =>
    obtain rfl : c.stream = fd := by simpa [Touching] using htouching
    unfold Hub.readCandidate
    cases hr : c.receive r with
    | blocked => exact .calm hphase trivial nofun (.inl hsteady)
    | failed => exact .calm hphase trivial nofun (.inr rfl)
    | records c' records =>
      cases records with
      | nil => exact .calm hphase trivial nofun (.inl hsteady)
      | cons record records =>
        refine ⟨.inl hsteady, fun stream htaking => ?_, nofun⟩
        rw [← Option.some.inj htaking]
        exact (receive_records hr).1
  | @writeActive c r hsteady hphase hactive =>
    obtain rfl : c.stream = fd := by simpa [Touching] using htouching
    have hcalm : h.phase.Calm ∧ ∀ stream, h.phase ≠ .accepted stream := by
      rcases hphase with hphase | hended
      · rw [hphase]
        exact ⟨trivial, nofun⟩
      · exact ⟨hended.calm, hended.not_accepted⟩
    unfold Hub.writeActive
    cases c.output.afterWrite r with
    | none => exact .calm rfl hcalm.1 hcalm.2 (.inr rfl)
    | some output => exact .calm rfl hcalm.1 hcalm.2 (.inl hsteady)
  | quiet hop | trace hop =>
    rcases htouching with ⟨_, hread⟩ | ⟨_, hwrite⟩
    · cases hread
      exact hop.elim
    · cases hwrite
      exact hop.elim
  | _ => rcases htouching with ⟨_, hcall⟩ | ⟨_, hcall⟩ <;> cases hcall

theorem Hub.Confined.pass (hconfined : h.Confined fd) (hon : h.On e h') (hpassing : Passing e) :
    h'.Confined fd := by
  cases hon with
  | trace | quiet => exact hconfined
  | @attach c c' _ _ _ hsteady hphase hreplay =>
    have htaking := hconfined.taking c.stream (by rw [hphase]; rfl)
    refine ⟨hconfined.leaving, fun stream hstream => ?_, nofun⟩
    rw [← Option.some.inj hstream, ← htaking]
    exact (enqueueReplay_same hreplay).stream
  | resize hsteady hphase | input hsteady hphase =>
    refine ⟨hconfined.leaving, fun stream hstream => ?_, nofun⟩
    exact hconfined.taking stream (by rw [hphase]; exact hstream)
  | _ => exact hpassing.elim

theorem Hub.Confined.silent (hconfined : h.Confined fd) (hsilent : h.Silent h') :
    h'.Confined fd := by
  have hgiven : ∀ {stream : Fd}, h.phase.taking = some stream → some stream = some fd :=
    fun htaking => congrArg some (hconfined.taking _ htaking)
  cases hsilent with
  | seat hphase | turnAway hphase => exact absurd hphase (hconfined.vetted _)
  | dismiss hphase | refuse hphase =>
    exact .calm rfl trivial nofun (.inr (hgiven (by rw [hphase]; rfl)))
  | stop hphase =>
    refine ⟨.inr (hgiven (by rw [hphase]; rfl)), nofun, nofun⟩
  | applied | finish => exact .calm rfl trivial nofun hconfined.leaving

/-- A session that is over was ended by an event. -/
theorem Serves.ended {log : RunnerLog} {h : Hub} (hserves : Serves log h) (hended : h.phase.Ended) :
    ∃ e ∈ log, Ending e := by
  induction hserves with
  | start => exact hended.elim
  | @event log h h' e hserves hon ih =>
    have hkept : h.phase.Ended → ∃ e' ∈ e :: log, Ending e' := fun hended => by
      obtain ⟨e', he', hending⟩ := ih hended
      exact ⟨e', List.mem_cons_of_mem _ he', hending⟩
    cases hon with
    | exit | stop => exact ⟨_, List.mem_cons_self, trivial⟩
    | quiet | trace | ptyEof | ptyError | acceptError | wait | close | closeLeaving =>
      exact hkept hended
    | readPty => exact hkept (h.phase_extend _ ▸ hended)
    | writePty => exact hkept (h.phase_writePty _ ▸ hended)
    | writeActive => exact hkept (h.phase_writeActive _ _ ▸ hended)
    | readActive =>
      rcases h.phase_readActive _ _ with hphase | ⟨_, _, hphase⟩ <;> rw [hphase] at hended
      · exact hkept hended
      · exact hended.elim
    | readCandidate =>
      rcases h.phase_readCandidate _ _ with hphase | ⟨_, _, hphase⟩ <;> rw [hphase] at hended
      · exact hkept hended
      · exact hended.elim
    | accept | windowError | attach | resize | input | activate => exact hended.elim
  | silent _ _ hsilent ih =>
    cases hsilent with
    | finish hover => exact ih hover
    | _ => exact hended.elim

end containment

/-- **A hub contains the faults of its connections.** -/
theorem Serves.contained {log : RunnerLog} {h : Hub} (hserves : Serves log h)
    (hnodup : (accepted log).Nodup) : Contained log ∧ (∀ fd, Owes fd log → h.Quits fd log) ∧
      ∀ fd, Touches fd log → h.Confined fd := by
  induction hserves with
  | start => exact ⟨trivial, fun _ howes => howes.elim, fun _ htouches => htouches.elim⟩
  | event hserves hon ih =>
    have hbefore := nodup_of_cons hnodup
    obtain ⟨hcontained, hquits, hconfined⟩ := ih hbefore
    have hinput := hserves.input hbefore
    refine ⟨⟨hcontained, fun fd howes => (hquits fd howes).next hinput hon, ?_⟩, ?_, ?_⟩
    · intro fd other htouches hclose
      have hleaving := (hconfined fd htouches).leaving
      cases hon with
      | closeLeaving hgiven =>
        cases hclose
        rw [hgiven] at hleaving
        rcases hleaving with hleaving | hleaving
        · cases hleaving
        · exact .inl (Option.some.inj hleaving)
      | close _ hended => exact .inr (hserves.ended hended)
      | quiet hop | trace hop =>
        cases hclose
        exact hop.elim
      | _ => cases hclose
    · rintro fd (hfaulty | ⟨hpassing, howes⟩)
      · exact hon.quits hinput hfaulty
      · exact (hquits fd howes).pass hon hpassing
    · rintro fd (htouching | ⟨hpassing, htouches⟩)
      · exact hon.confined htouching
      · exact (hconfined fd htouches).pass hon hpassing
  | silent hserves hsteady hsilent ih =>
    obtain ⟨hcontained, hquits, hconfined⟩ := ih hnodup
    exact ⟨hcontained,
      fun fd howes => (hquits fd howes).silent (hserves.input hnodup) hsteady hsilent,
      fun fd htouches => (hconfined fd htouches).silent hsilent⟩

/-! ## The event loop -/

/-- How the event loop should end: with the exit that the child's wait reported, or because a
connection sent a `Stop`. -/
def Ends : Except IoError Turn → RunnerLog → Prop
  | .ok (.exited _ exit), log =>
    ∃ status, exit = processExit status ∧ ⟨.process .tryWait, .ok (some status)⟩ ∈ log
  | .ok (.stopRequested _), log => ∃ fd rest, ipcFormat.drain (received fd log) = ([.stop], .ok rest)
  | .ok (.again _), _ => False
  | .error _, _ => False

/-- The exit of a session was reported by the child's wait. -/
theorem Serves.exited {log : RunnerLog} {h : Hub} {status : ExitStatus} (hserves : Serves log h)
    (hexited : h.phase = .exited status) : ⟨.process .tryWait, .ok (some status)⟩ ∈ log := by
  induction hserves with
  | start => cases hexited
  | event hserves hon ih =>
    cases hon with
    | exit =>
      cases hexited
      exact List.mem_cons_self
    | quiet | trace | ptyEof | ptyError | acceptError | wait | close | closeLeaving =>
      exact List.mem_cons_of_mem _ (ih hexited)
    | readPty => exact List.mem_cons_of_mem _ (ih (Hub.phase_extend _ _ ▸ hexited))
    | writePty => exact List.mem_cons_of_mem _ (ih (Hub.phase_writePty _ _ ▸ hexited))
    | writeActive => exact List.mem_cons_of_mem _ (ih (Hub.phase_writeActive _ _ _ ▸ hexited))
    | readActive =>
      rcases Hub.phase_readActive _ _ _ with hphase | ⟨_, _, hphase⟩ <;> rw [hphase] at hexited
      · exact List.mem_cons_of_mem _ (ih hexited)
      · cases hexited
    | readCandidate =>
      rcases Hub.phase_readCandidate _ _ _ with hphase | ⟨_, _, hphase⟩ <;> rw [hphase] at hexited
      · exact List.mem_cons_of_mem _ (ih hexited)
      · cases hexited
    | accept | windowError | attach | resize | input | activate | stop => cases hexited
  | silent _ _ hsilent ih =>
    cases hsilent <;> cases hexited

/-- What the runs of the event loop lead to. -/
theorem eventLoop_runs {ctx : RunnerContext} {trace : Option Trace} {log : RunnerLog}
    {p : Prog (Except IoError Turn)}
    (hrun : Runs connections (ctx.eventLoop ctx.self.rounds (.start trace)).run log p) :
    Contained log ∧ ∀ r, p = .ret r → (Unbroken log ↔ Ends r log) := by
  have hat : At True [] ((LoopState.start trace).hub .idle) := ⟨.start, fun _ _ => nofun⟩
  have hnodup := nodup_of_allowed hrun.allowed
  obtain ⟨⟨h, hserves⟩, hends⟩ := log_sound ⟨_, .start⟩ (wp_eventLoop ctx hat)
    (hrun.mono fun _ _ _ _ => trivial)
  refine ⟨(hserves.contained hnodup).1, fun r hr => ?_⟩
  rcases r with error | turn
  · exact iff_of_false (hends _ hr).2 id
  · obtain ⟨hturn, hagain⟩ := hends _ hr
    cases turn with
    | again st => exact absurd rfl (hagain st)
    | exited st exit =>
      obtain ⟨status, rfl, hat⟩ := hturn
      exact iff_of_true (hat.unbroken trivial) ⟨status, rfl, hat.serves.exited rfl⟩
    | stopRequested st =>
      obtain ⟨stream, hat⟩ := hturn
      obtain ⟨rest, hrest⟩ := (hat.serves.input hnodup).phase
      exact iff_of_true (hat.unbroken trivial) ⟨stream, rest, hrest⟩

/-- A record that `next` yields has dimensions that the terminal takes. -/
theorem validateDimensions_next {d d' : Decoder} {rows columns : UInt16}
    (h : d.next = .ok (some (.attach rows columns), d') ∨
      d.next = .ok (some (.resize rows columns), d')) :
    (validateDimensions rows columns).run = .ret (.ok ()) := by
  have hvalid : (1 ≤ rows ∧ rows ≤ maxTerminalDimension) ∧
      (1 ≤ columns ∧ columns ≤ maxTerminalDimension) := by
    rcases h with h | h
    · exact Decoder.valid_of_next h
    · exact Decoder.valid_of_next h
  rw [validateDimensions, if_pos hvalid]
  rfl

/-- **Client bytes cannot bring the runner down.** As long as the system's calls succeed, whatever
the connections send and however it is cut, neither the event loop nor the completion of the session
fails; a stream that is malformed or out of protocol closes its own connection. The checks on the
way agree: what the decoder yields passes the range check, the replay fits the queue of a new
connection, and output chunks encode. -/
theorem client_bytes (ctx : RunnerContext) (trace : Option Trace) {log : RunnerLog}
    {p : Prog (Except IoError Unit)}
    (hrun : Runs connections (ctx.runEventLoop (.start trace)).run log p) (hok : Smooth log) :
    (∀ error, p ≠ .ret (.error error)) ∧ Contained log ∧
      (∀ (d d' : Decoder) rows columns, d.next = .ok (some (.attach rows columns), d') ∨
        d.next = .ok (some (.resize rows columns), d') →
          (validateDimensions rows columns).run = .ret (.ok ())) ∧
      (∀ (connection : Connection) (tail : OutputTail),
        connection.output = .new maxAttachmentQueueBytes → tail.capacity = outputTailBytes →
          ∃ connection', enqueueReplay connection tail = .ok connection') ∧
      ∀ (output : Bytes), ∀ chunk ∈ chunks maxIpcPayloadBytes output.length output,
        ∃ encoded, encodeRecord (.output chunk) = .ok encoded := by
  have hstart : Serves [] ((LoopState.start trace).hub .idle) := .start
  obtain ⟨⟨h, hserves⟩, hresult⟩ := log_sound ⟨_, .start⟩ (wp_runEventLoop ctx hstart)
    (hrun.mono fun _ _ _ _ => trivial)
  have hcontained := (hserves.contained (nodup_of_allowed hrun.allowed)).1
  refine ⟨fun error herror => ?_, hcontained, ?_, ?_, ?_⟩
  · obtain ⟨_, hr⟩ := hresult _ herror hok
    cases hr
  · exact fun d d' rows columns h => validateDimensions_next h
  · intro connection tail hqueue hcapacity
    exact enqueueReplay_fits hcapacity (by rw [hqueue]; rfl) (by rw [hqueue]; rfl)
  · exact fun output chunk hchunk => ⟨_, encodeRecord_output (chunk_small hchunk)⟩

/-- A connection sends what is no record; later the child exits. -/
def malformedScene : Scene where
  accepts := [.ok 5]
  reads := [.ok [0x09, 0, 0, 0, 0]]
  polls := [Scene.atListener, Scene.atCandidate]
  waits := [none, none, some ⟨some 3, none⟩]

theorem client_bytes_malformed : ∃ log r,
    Runs connections (exampleContext.runEventLoop (.start none)).run log (.ret r) ∧
      (∃ e ∈ log, e.op = .socket (.close 5)) ∧ (∀ error, r ≠ .error error) ∧ Contained log := by
  have hrun := runs_play (A := connections) (o := Scene.answer) (n := 31)
    (s := malformedScene) (p := (exampleContext.runEventLoop (.start none)).run) (by decide +kernel)
  obtain ⟨r, hr, -⟩ := Program.exists_of_returned (f := fun _ => true)
    (p := (play Scene.answer 31 malformedScene [] (exampleContext.runEventLoop (.start none)).run).2)
    (by decide +kernel)
  have hclosed : ∃ e ∈ (play Scene.answer 31 malformedScene []
      (exampleContext.runEventLoop (.start none)).run).1, e.op = .socket (.close 5) := by
    decide +kernel
  have hok : Smooth (play Scene.answer 31 malformedScene []
      (exampleContext.runEventLoop (.start none)).run).1 := by decide +kernel
  rw [hr] at hrun
  generalize (play Scene.answer 31 malformedScene []
    (exampleContext.runEventLoop (.start none)).run).1 = log at hrun hclosed hok
  have hbytes := client_bytes exampleContext none hrun hok
  exact ⟨log, r, hrun, hclosed, fun error herror => hbytes.1 error (by rw [herror]), hbytes.2.1⟩

/-- **Only the child's exit or a `Stop` ends a session**, unless a call breaks the loop: as long as
the poll, the child's wait and the terminal succeed, the loop returns the reported exit or a client's
stop exactly when no accepted connection failed before it was a candidate, no accept failed, and no
rewrite of the record did. What fails on one connection only ever closes that connection. -/
theorem session_ends (ctx : RunnerContext) (trace : Option Trace) {log : RunnerLog}
    {p : Prog (Except IoError Turn)}
    (hrun : Runs connections (ctx.eventLoop ctx.self.rounds (.start trace)).run log p)
    (hsystem : ∀ e ∈ log, ¬ SystemFailure e) :
    ((∀ e ∈ log, ¬ Breaking e) → Contained log ∧ ∀ error, p ≠ .ret (.error error)) ∧
      ∀ r, p = .ret r → ((∀ e ∈ log, ¬ Breaking e) ↔ Ends r log ∧ Contained log) := by
  obtain ⟨hcontained, hends⟩ := eventLoop_runs hrun
  have hunbroken : (∀ e ∈ log, ¬ Breaking e) ↔ Unbroken log :=
    forall₂_congr fun e he => ⟨fun hb => ⟨hb, hsystem e he⟩, And.left⟩
  refine ⟨fun hbreaking => ⟨hcontained, fun error herror => ?_⟩, fun r hr => ?_⟩
  · exact (hends _ herror).mp (hunbroken.mp hbreaking)
  · rw [hunbroken, hends r hr]
    exact (and_iff_left hcontained).symm

/-- The peer of a connection cannot be looked up. -/
def peerScene : Scene where
  accepts := [.ok 5]
  peers := [.error (.os .notConnected 107)]
  polls := [Scene.atListener]

/-- A client attaches, and its stream breaks; later the child exits. -/
def exitScene : Scene where
  accepts := [.ok 5]
  reads := [.ok (writeRecord (.attach 24 80)), .error (.os .connectionReset 104)]
  polls := [Scene.atListener, Scene.atCandidate, Scene.atActive]
  waits := [none, none, none, some ⟨some 3, none⟩]

/-- The broken stream costs its connection, and the session goes on to the child's exit. -/
theorem session_ends_exit : ∃ log r,
    Runs connections (exampleContext.eventLoop 4 (.start none)).run log (.ret r) ∧
      (∃ e ∈ log, Activates 5 e) ∧ (∃ e ∈ log, e.op = .socket (.close 5)) ∧ Ends r log ∧
        Contained log := by
  have hrun := runs_play (A := connections) (o := Scene.answer) (n := 31) (s := exitScene)
    (p := (exampleContext.eventLoop 4 (.start none)).run) (by decide +kernel)
  obtain ⟨r, hr, -⟩ := Program.exists_of_returned (f := fun _ => true)
    (p := (play Scene.answer 31 exitScene [] (exampleContext.eventLoop 4 (.start none)).run).2)
    (by decide +kernel)
  have hactive : ∃ e ∈ (play Scene.answer 31 exitScene []
      (exampleContext.eventLoop 4 (.start none)).run).1, Activates 5 e := by decide +kernel
  have hclosed : ∃ e ∈ (play Scene.answer 31 exitScene []
      (exampleContext.eventLoop 4 (.start none)).run).1, e.op = .socket (.close 5) := by
    decide +kernel
  have hok : ∀ e ∈ (play Scene.answer 31 exitScene []
      (exampleContext.eventLoop 4 (.start none)).run).1, ¬ Breaking e ∧ ¬ SystemFailure e := by
    decide +kernel
  rw [hr] at hrun
  generalize (play Scene.answer 31 exitScene []
    (exampleContext.eventLoop 4 (.start none)).run).1 = log at hrun hactive hclosed hok
  have hends := (session_ends exampleContext none hrun fun e he => (hok e he).2).2 r rfl
  have hended := hends.mp fun e he => (hok e he).1
  exact ⟨log, r, hrun, hactive, hclosed, hended.1, hended.2⟩

/-- A connection whose peer cannot be looked up ends the session, though the child runs and nobody
stopped it. -/
theorem session_ends_by_peer : ∃ log error,
    Runs connections (exampleContext.eventLoop 4 (.start none)).run log (.ret (.error error)) ∧
      ∀ e ∈ log, ¬ SystemFailure e := by
  have hrun := runs_play (A := connections) (o := Scene.answer) (n := 24) (s := peerScene)
    (p := (exampleContext.eventLoop 4 (.start none)).run) (by decide +kernel)
  obtain ⟨r, hr, herror⟩ := Program.exists_of_returned (f := fun r => !r.isOk)
    (p := (play Scene.answer 24 peerScene [] (exampleContext.eventLoop 4 (.start none)).run).2)
    (by decide +kernel)
  cases r with
  | ok turn => cases herror
  | error error =>
    rw [hr] at hrun
    exact ⟨_, error, hrun, by decide +kernel⟩

end AfkCli
