import AfkCli.Codec
import AfkCli.Provenance

/-!
# What an attachment is shown

An attachment is sent output records, and at most one exit after them. The output is the replay of
what the terminal had shown before the attachment was activated, and then what the terminal shows.
An attachment that is dropped has seen a part of it; one that is told the exit has seen it all.

## Main definitions

* `plan`: the records an attachment is sent
* `Queued`, `Faithful`: what was sent, and what waits to be sent
* `OutputInv`: the invariant of a hub's output

## Main results

* `Serves.output`: the invariant holds along every log
* `replay_before_live`: an attachment decodes a part of its replay and of the output since
-/

namespace AfkCli

open Interaction

/-- Output records for the chunks, and the exit. -/
def plan (chunks : List Bytes) (exit : Option ProcessExit) : List Record :=
  chunks.map .output ++ exit.toList.map .exit

theorem plan_none (chunks : List Bytes) :
    (plan chunks none).flatMap writeRecord = outputRecords chunks := by
  rw [plan, Option.toList_none, List.map_nil, List.append_nil, outputRecords]

theorem plan_some (chunks : List Bytes) (exit : ProcessExit) :
    (plan chunks (some exit)).flatMap writeRecord =
      outputRecords chunks ++ writeRecord (.exit exit) := by
  rw [plan, List.flatMap_append, outputRecords]
  simp

/-- What is encoded is written. -/
theorem encodeRecord_ok {record : Record} {encoded : Bytes} (h : encodeRecord record = .ok encoded) :
    encoded = writeRecord record := by
  simp only [encodeRecord, encode] at h
  split_ifs at h
  exact (Except.ok.inj h).symm

/-- The chunks fit their records. -/
def Sendable (chunks : List Bytes) : Prop := ∀ chunk ∈ chunks, chunk.length ≤ maxIpcPayloadBytes

/-- What was sent to an attachment and what waits for it are together the output it is shown, and
the exit once the session has finished. -/
def Queued (phase : Phase) (shown sent waiting : Bytes) : Prop :=
  ∃ chunks exit, Sendable chunks ∧ chunks.flatten = shown ∧
    sent ++ waiting = (plan chunks exit).flatMap writeRecord ∧
      (exit.isSome → phase = .finished)

/-- What was sent to a connection is a part of the output it is shown, and the exit only after all
of it. -/
def Faithful (phase : Phase) (shown sent : Bytes) : Prop :=
  ∃ chunks exit, Sendable chunks ∧ chunks.flatten <+: shown ∧
    sent <+: (plan chunks exit).flatMap writeRecord ∧
      (exit.isSome → phase = .finished ∧ chunks.flatten = shown)

theorem Queued.faithful {phase : Phase} {shown sent waiting : Bytes}
    (h : Queued phase shown sent waiting) : Faithful phase shown sent := by
  obtain ⟨chunks, exit, hsendable, rfl, hbytes, hexit⟩ := h
  exact ⟨chunks, exit, hsendable, List.prefix_refl _, ⟨waiting, hbytes⟩,
    fun h => ⟨hexit h, rfl⟩⟩

/-- While the session has not finished, no exit was sent. -/
theorem Queued.unfinished {phase phase' : Phase} {shown sent waiting : Bytes}
    (h : Queued phase shown sent waiting) (hunfinished : phase ≠ .finished) :
    Queued phase' shown sent waiting := by
  obtain ⟨chunks, exit, hsendable, hflatten, hbytes, hexit⟩ := h
  exact ⟨chunks, exit, hsendable, hflatten, hbytes, fun h => absurd (hexit h) hunfinished⟩

theorem Faithful.unfinished {phase phase' : Phase} {shown sent : Bytes}
    (h : Faithful phase shown sent) (hunfinished : phase ≠ .finished) :
    Faithful phase' shown sent := by
  obtain ⟨chunks, exit, hsendable, hpart, hbytes, hexit⟩ := h
  exact ⟨chunks, exit, hsendable, hpart, hbytes, fun h => absurd (hexit h).1 hunfinished⟩

/-- The attachment: the active one, or the one whose records are being applied. -/
def Hub.attached (h : Hub) : Option Connection :=
  match h.phase with
  | .applying false c _ => some c
  | _ => h.active

/-- The connection that is joining. -/
def Hub.joiner (h : Hub) : Option Connection :=
  match h.phase with
  | .applying true c _ => some c
  | _ => none

/-- No records are being applied. -/
def Phase.Plain (phase : Phase) : Prop :=
  ∀ joining c records, phase ≠ .applying joining c records

theorem Phase.Calm.plain {phase : Phase} (hcalm : phase.Calm) : phase.Plain := by
  rintro joining c records rfl
  exact hcalm

theorem Phase.plain_greeting (c : Connection) (records : List Record) :
    (Phase.greeting c records).Plain := nofun

theorem Phase.plain_stopping (stream : Fd) : (Phase.stopping stream).Plain := nofun

theorem Phase.plain_of_idle {phase : Phase} (h : phase = .idle) : phase.Plain :=
  h ▸ Phase.Calm.plain trivial

/-- An idle session has not finished. -/
theorem Phase.unfinished_of_idle {phase phase' : Phase} (h : phase = .idle) :
    phase = .finished → phase' = .finished :=
  fun hfinished => Phase.noConfusion (h.symm.trans hfinished)

theorem Hub.attached_plain {h : Hub} (hplain : h.phase.Plain) : h.attached = h.active := by
  unfold Hub.attached
  split
  · rename_i hphase
    exact absurd hphase (hplain _ _ _)
  · rfl

theorem Hub.joiner_plain {h : Hub} (hplain : h.phase.Plain) : h.joiner = none := by
  unfold Hub.joiner
  split
  · rename_i hphase
    exact absurd hphase (hplain _ _ _)
  · rfl

/-- The invariant of a hub's output. -/
structure OutputInv (log : RunnerLog) (h : Hub) : Prop where
  tail : h.tail.Keeps (ptyRead log)
  unsent : ∀ fd, expected fd log = none → sent fd log = []
  faithful : ∀ fd shown, expected fd log = some shown → Faithful h.phase shown (sent fd log)
  attached : ∀ c, h.attached = some c → ∃ shown, expected c.stream log = some shown ∧
    Queued h.phase shown (sent c.stream log) c.output.bytes
  joiner : ∀ c, h.joiner = some c → Queued h.phase (replay (ptyRead log)) [] c.output.bytes
  alone : ∀ c records, h.phase = .applying false c records → h.active = none

/-! ## Events -/

/-- The event carries no output. -/
structure NoOutput (e : RunnerEvent) : Prop where
  output : outputOf e = []
  sent : ∀ fd, sentBy fd e = []
  activates : ∀ fd, ¬ Activates fd e

theorem noOutput_of_quiet {op : Call} (h : Quiet op) (r : op.Answer) : NoOutput ⟨op, r⟩ := by
  rcases op with op | op | op | op | op <;> cases op <;> first
    | exact h.elim
    | exact ⟨rfl, fun _ => rfl, nofun⟩

theorem noOutput_of_traces {op : Call} (h : Traces op) (r : op.Answer) : NoOutput ⟨op, r⟩ := by
  rcases op with op | op | op | op | op <;> cases op <;> first
    | exact h.elim
    | exact ⟨rfl, fun _ => rfl, nofun⟩

section views

variable {e : RunnerEvent} {log : RunnerLog} {fd : Fd}

theorem ptyRead_cons (h : outputOf e = []) : ptyRead (e :: log) = ptyRead log := by
  rw [ptyRead, h, List.append_nil]

theorem sent_cons (h : sentBy fd e = []) : sent fd (e :: log) = sent fd log := by
  rw [sent, h, List.append_nil]

theorem expected_cons (h : ¬ Activates fd e) :
    expected fd (e :: log) = (expected fd log).map (· ++ outputOf e) := by
  rw [expected, if_neg h]

theorem expected_quiet (h : ¬ Activates fd e) (hout : outputOf e = []) :
    expected fd (e :: log) = expected fd log := by
  rw [expected_cons h, hout]
  simp

/-- A connection is shown something once it was activated. -/
theorem expected_eq_none : expected fd log = none ↔ ∀ e ∈ log, ¬ Activates fd e := by
  induction log with
  | nil => simp [expected]
  | cons e log ih =>
    by_cases h : Activates fd e
    · rw [expected, if_pos h]
      simp [h]
    · rw [expected_cons h, Option.map_eq_none_iff, ih]
      simp [h]

end views

namespace OutputInv

variable {log : RunnerLog} {h h' : Hub} {e : RunnerEvent}

/-- An event without output, after which the attachment is what it was, or gone. -/
theorem keep (hinv : OutputInv log h) (he : NoOutput e) (htail : h'.tail = h.tail)
    (hphase : h.phase = .finished → h'.phase = .finished)
    (hattached : ∀ c', h'.attached = some c' →
      ∃ c, h.attached = some c ∧ c'.stream = c.stream ∧ c'.output.bytes = c.output.bytes)
    (hjoiner : ∀ c', h'.joiner = some c' → h.joiner = some c' ∨
      Queued h'.phase (replay (ptyRead log)) [] c'.output.bytes)
    (halone : ∀ c records, h'.phase = .applying false c records → h'.active = none) :
    OutputInv (e :: log) h' := by
  have hexpected : ∀ fd, expected fd (e :: log) = expected fd log :=
    fun fd => expected_quiet (he.activates fd) he.output
  refine ⟨?_, ?_, ?_, ?_, ?_, halone⟩
  · rw [htail, ptyRead_cons he.output]
    exact hinv.tail
  · intro fd hnone
    rw [hexpected] at hnone
    rw [sent_cons (he.sent fd)]
    exact hinv.unsent fd hnone
  · intro fd shown hshown
    rw [hexpected] at hshown
    rw [sent_cons (he.sent fd)]
    obtain ⟨chunks, exit, hsendable, hpart, hsent, hexit⟩ := hinv.faithful fd shown hshown
    exact ⟨chunks, exit, hsendable, hpart, hsent, fun h => ⟨hphase (hexit h).1, (hexit h).2⟩⟩
  · intro c' hc'
    obtain ⟨c, hc, hstream, hbytes⟩ := hattached c' hc'
    obtain ⟨shown, hshown, chunks, exit, hsendable, hflatten, hsent, hexit⟩ := hinv.attached c hc
    rw [hstream, hbytes, hexpected, sent_cons (he.sent _)]
    exact ⟨shown, hshown, chunks, exit, hsendable, hflatten, hsent, fun h => hphase (hexit h)⟩
  · intro c' hc'
    rw [ptyRead_cons he.output]
    rcases hjoiner c' hc' with hc | hqueued
    · obtain ⟨chunks, exit, hsendable, hflatten, hsent, hexit⟩ := hinv.joiner c' hc
      exact ⟨chunks, exit, hsendable, hflatten, hsent, fun h => hphase (hexit h)⟩
    · exact hqueued

/-- An event without output that leaves the hub as it is. -/
theorem stay (hinv : OutputInv log h) (he : NoOutput e) : OutputInv (e :: log) h :=
  hinv.keep he rfl id (fun c hc => ⟨c, hc, rfl, rfl⟩) (fun _ hc => .inl hc) hinv.alone

/-- Where no records are being applied, the attachment is the active one. -/
theorem of_plain {log' : RunnerLog} (hplain : h'.phase.Plain) (htail : h'.tail.Keeps (ptyRead log'))
    (hunsent : ∀ fd, expected fd log' = none → sent fd log' = [])
    (hfaithful : ∀ fd shown, expected fd log' = some shown → Faithful h'.phase shown (sent fd log'))
    (hactive : ∀ c, h'.active = some c → ∃ shown, expected c.stream log' = some shown ∧
      Queued h'.phase shown (sent c.stream log') c.output.bytes) : OutputInv log' h' := by
  refine ⟨htail, hunsent, hfaithful, fun c hc => ?_, fun c hc => ?_, fun c records happlying => ?_⟩
  · rw [Hub.attached_plain hplain] at hc
    exact hactive c hc
  · rw [Hub.joiner_plain hplain] at hc
    cases hc
  · exact absurd happlying (hplain _ _ _)

/-- Output of the terminal. -/
theorem extend {capacity : Nat} {bytes : Bytes} (hinv : OutputInv log h) (hplain : h.phase.Plain)
    (hunfinished : h.phase ≠ .finished) :
    OutputInv (⟨.process (.readPty capacity), .ok bytes⟩ :: log) (h.extend bytes) := by
  have hexpected : ∀ fd, expected fd (⟨.process (.readPty capacity), .ok bytes⟩ :: log) =
      (expected fd log).map (· ++ bytes) := fun fd => expected_cons nofun
  have hsent : ∀ fd, sent fd (⟨.process (.readPty capacity), .ok bytes⟩ :: log) = sent fd log :=
    fun fd => sent_cons rfl
  have htail : (h.tail.extend bytes).Keeps (ptyRead log ++ bytes) := hinv.tail.extend bytes
  have hunsent : ∀ fd, expected fd (⟨.process (.readPty capacity), .ok bytes⟩ :: log) = none →
      sent fd (⟨.process (.readPty capacity), .ok bytes⟩ :: log) = [] := by
    intro fd hnone
    rw [hexpected, Option.map_eq_none_iff] at hnone
    rw [hsent]
    exact hinv.unsent fd hnone
  have hfaithful : ∀ fd shown,
      expected fd (⟨.process (.readPty capacity), .ok bytes⟩ :: log) = some shown →
        Faithful h.phase shown (sent fd (⟨.process (.readPty capacity), .ok bytes⟩ :: log)) := by
    intro fd shown hshown
    rw [hexpected, Option.map_eq_some_iff] at hshown
    obtain ⟨before, hbefore, rfl⟩ := hshown
    rw [hsent]
    obtain ⟨chunks, exit, hsendable, hpart, hbytes, hexit⟩ := hinv.faithful fd before hbefore
    exact ⟨chunks, exit, hsendable, hpart.trans (List.prefix_append _ _), hbytes,
      fun h => absurd (hexit h).1 hunfinished⟩
  unfold Hub.extend
  dsimp only
  split
  · rename_i hnone
    refine of_plain hplain htail hunsent hfaithful fun c hc => ?_
    rw [hnone] at hc
    cases hc
  · rename_i c hc
    cases hqueue : enqueueOutput c bytes with
    | error error => exact of_plain hplain htail hunsent hfaithful nofun
    | ok c' =>
      refine of_plain hplain htail hunsent hfaithful ?_
      rintro _ ⟨⟩
      obtain ⟨hsame, pieces, hpieces, hflatten, hqueued⟩ := enqueueOutput_ok hqueue
      obtain ⟨shown, hshown, chunks, exit, hsendable, rfl, hbytes, hexit⟩ :=
        hinv.attached c ((Hub.attached_plain hplain).trans hc)
      -- the session has not finished, so nothing is queued behind the output yet
      obtain rfl : exit = none := by
        cases exit with
        | none => rfl
        | some exit => exact absurd (hexit rfl) hunfinished
      refine ⟨chunks.flatten ++ bytes, ?_, chunks ++ pieces, none, ?_, ?_, ?_, nofun⟩
      · rw [hsame.stream, hexpected, hshown]
        rfl
      · intro chunk hchunk
        rcases List.mem_append.mp hchunk with hchunk | hchunk
        · exact hsendable chunk hchunk
        · exact hpieces chunk hchunk
      · rw [List.flatten_append, hflatten]
      · rw [hsent, hsame.stream, hqueued, ← List.append_assoc, hbytes, plan_none, plan_none]
        exact (outputRecords_append chunks pieces).symm

/-- A write that sent nothing. -/
theorem writeNothing {c : Connection} {active : Option Connection} {leaving : Option Fd}
    {r : Except IoError Nat} (hinv : OutputInv log h) (hplain : h.phase.Plain)
    (hnothing : ∀ fd, sentBy fd ⟨.socket (.write c.stream c.output.bytes), r⟩ = [])
    (hactive : active = none ∨ active = h.active) :
    OutputInv (⟨.socket (.write c.stream c.output.bytes), r⟩ :: log)
      { h with active, leaving } := by
  refine hinv.keep ⟨rfl, hnothing, nofun⟩ rfl (fun h => h) ?_ (fun c' hc' => .inl hc') ?_
  · intro c' hc'
    rw [Hub.attached_plain (h := { h with active, leaving }) hplain] at hc'
    refine ⟨c', ?_, rfl, rfl⟩
    rcases hactive with rfl | rfl
    · cases hc'
    · rw [Hub.attached_plain hplain]
      exact hc'
  · exact fun c' records happlying => absurd happlying (hplain _ _ _)

/-- A write to the attachment. -/
theorem writeActive {c : Connection} (hinv : OutputInv log h) (hplain : h.phase.Plain)
    (hactive : h.active = some c) (r : Except IoError Nat) :
    OutputInv (⟨.socket (.write c.stream c.output.bytes), r⟩ :: log) (h.writeActive c r) := by
  unfold Hub.writeActive
  rcases r with error | (_ | n)
  · by_cases hblock : error.kind = .wouldBlock ∨ error.kind = .interrupted
    · simp only [ByteQueue.afterWrite, if_pos hblock]
      show OutputInv _ { h with active := some c }
      rw [← hactive]
      exact hinv.stay ⟨rfl, fun _ => rfl, fun _ h => by cases h⟩
    · simp only [ByteQueue.afterWrite, if_neg hblock]
      exact hinv.writeNothing hplain (fun _ => rfl) (.inl rfl)
  · refine hinv.writeNothing hplain (fun fd => ?_) (.inl rfl)
    simp only [sentBy, List.take_zero, ite_self]
  · simp only [ByteQueue.afterWrite]
    obtain ⟨shown, hshown, chunks, exit, hsendable, hflatten, hbytes, hexit⟩ :=
      hinv.attached c ((Hub.attached_plain hplain).trans hactive)
    have hexpected : ∀ fd, expected fd
        (⟨.socket (.write c.stream c.output.bytes), .ok (n + 1)⟩ :: log) = expected fd log :=
      fun fd => expected_quiet (fun h => by cases h) rfl
    have hother : ∀ fd, c.stream ≠ fd → sent fd
        (⟨.socket (.write c.stream c.output.bytes), .ok (n + 1)⟩ :: log) = sent fd log :=
      fun fd hne => sent_cons (if_neg hne)
    have hself : sent c.stream
        (⟨.socket (.write c.stream c.output.bytes), .ok (n + 1)⟩ :: log) =
          sent c.stream log ++ c.output.bytes.take (n + 1) :=
      congrArg (sent c.stream log ++ ·) (if_pos rfl)
    -- what was written moves from the queue to what was sent
    have hqueued : Queued h.phase shown (sent c.stream
        (⟨.socket (.write c.stream c.output.bytes), .ok (n + 1)⟩ :: log))
          (c.output.bytes.drop (n + 1)) := by
      refine ⟨chunks, exit, hsendable, hflatten, ?_, hexit⟩
      rw [hself, List.append_assoc, List.take_append_drop]
      exact hbytes
    refine of_plain hplain ?_ ?_ ?_ ?_
    · rw [ptyRead_cons rfl]
      exact hinv.tail
    · intro fd hnone
      rw [hexpected] at hnone
      rw [hother fd, hinv.unsent fd hnone]
      rintro rfl
      rw [hshown] at hnone
      cases hnone
    · intro fd shown' hshown'
      rw [hexpected] at hshown'
      by_cases hfd : c.stream = fd
      · subst hfd
        rw [hshown] at hshown'
        cases hshown'
        exact hqueued.faithful
      · rw [hother fd hfd]
        exact hinv.faithful fd shown' hshown'
    · rintro _ ⟨⟩
      exact ⟨shown, (hexpected _).trans hshown, hqueued⟩

/-- The replay is queued for the connection that is joining. -/
theorem attach {c c' : Connection} {rows columns : UInt16} {rest : List Record}
    (hinv : OutputInv log h) (hsteady : h.Steady)
    (hphase : h.phase = .greeting c (.attach rows columns :: rest))
    (hreplay : enqueueReplay c h.tail = .ok c') :
    OutputInv (⟨.process (.setWindowSize rows columns), .ok ()⟩ :: log)
      { h with phase := .applying true c' rest } := by
  have hempty := hsteady.phase
  rw [hphase] at hempty
  obtain ⟨hsame, pieces, hpieces, hflatten, hqueued⟩ :=
    enqueueReplay_ok hinv.tail hsteady.tail hreplay
  refine hinv.keep ⟨rfl, fun _ => rfl, nofun⟩ rfl ?_ ?_ ?_ nofun
  · rw [hphase]
    nofun
  · intro c' hc'
    refine ⟨c', ?_, rfl, rfl⟩
    rw [← hc']
    simp only [Hub.attached, hphase]
  · rintro _ ⟨⟩
    refine .inr ⟨pieces, none, hpieces, hflatten, ?_, nofun⟩
    rw [hqueued, hempty.2.1, plan_none]
    rfl

/-- The connection that was joining is the attachment. -/
theorem activate {c : Connection} (hinv : OutputInv log h) (hphase : h.phase = .applying true c [])
    (hnew : expected c.stream log = none) :
    OutputInv (⟨.note (.activated c.stream), ()⟩ :: log)
      { h with active := some c, phase := .idle, leaving := h.active.map (·.stream) } := by
  have hself : expected c.stream (⟨.note (.activated c.stream), ()⟩ :: log) =
      some (replay (ptyRead log)) := if_pos rfl
  have hother : ∀ fd, fd ≠ c.stream →
      expected fd (⟨.note (.activated c.stream), ()⟩ :: log) = expected fd log := by
    intro fd hne
    refine expected_quiet ?_ rfl
    intro hactivates
    exact hne (Note.activated.inj (Call.note.inj hactivates)).symm
  have hsent : ∀ fd, sent fd (⟨.note (.activated c.stream), ()⟩ :: log) = sent fd log :=
    fun fd => sent_cons rfl
  have hqueued : Queued .idle (replay (ptyRead log)) (sent c.stream log) c.output.bytes := by
    rw [hinv.unsent _ hnew]
    obtain ⟨chunks, exit, hsendable, hflatten, hbytes, hexit⟩ :=
      hinv.joiner c (by simp only [Hub.joiner, hphase])
    refine ⟨chunks, exit, hsendable, hflatten, hbytes, fun h => ?_⟩
    rw [hphase] at hexit
    cases hexit h
  refine ⟨?_, ?_, ?_, ?_, nofun, nofun⟩
  · rw [ptyRead_cons rfl]
    exact hinv.tail
  · intro fd hnone
    rw [hsent]
    by_cases hfd : fd = c.stream
    · rw [hfd, hself] at hnone
      cases hnone
    · rw [hother fd hfd] at hnone
      exact hinv.unsent fd hnone
  · intro fd shown hshown
    rw [hsent]
    by_cases hfd : fd = c.stream
    · subst hfd
      rw [hself] at hshown
      cases hshown
      exact hqueued.faithful
    · rw [hother fd hfd] at hshown
      obtain ⟨chunks, exit, hsendable, hpart, hbytes, hexit⟩ := hinv.faithful fd shown hshown
      refine ⟨chunks, exit, hsendable, hpart, hbytes, fun h => ?_⟩
      rw [hphase] at hexit
      cases (hexit h).1
  · rintro _ ⟨⟩
    refine ⟨_, hself, ?_⟩
    rw [hsent]
    exact hqueued

/-- An event without output, before and after which no records are being applied. -/
theorem move (hinv : OutputInv log h) (he : NoOutput e) (hplain : h.phase.Plain)
    (hplain' : h'.phase.Plain) (htail : h'.tail = h.tail)
    (hphase : h.phase = .finished → h'.phase = .finished)
    (hactive : h'.active = none ∨ h'.active = h.active) : OutputInv (e :: log) h' := by
  refine hinv.keep he htail hphase (fun c' hc' => ?_) (fun c' hc' => ?_) fun c records happlying => ?_
  · rw [Hub.attached_plain hplain'] at hc'
    refine ⟨c', ?_, rfl, rfl⟩
    rcases hactive with hactive | hactive
    · rw [hactive] at hc'
      cases hc'
    · rw [Hub.attached_plain hplain, ← hactive]
      exact hc'
  · rw [Hub.joiner_plain hplain'] at hc'
    cases hc'
  · exact absurd happlying (hplain' _ _ _)

/-- The active attachment is the attachment, if there is one. -/
theorem attached_of_active (hinv : OutputInv log h) {c : Connection} (hc : h.active = some c) :
    h.attached = some c := by
  unfold Hub.attached
  split
  · rename_i hphase
    rw [hinv.alone _ _ hphase] at hc
    cases hc
  · exact hc

/-- A record is applied. -/
theorem apply {joining : Bool} {c : Connection} {records rest : List Record} (hinv : OutputInv log h)
    (he : NoOutput e) (hphase : h.phase = .applying joining c records)
    (hphase' : h'.phase = .applying joining c rest) (htail : h'.tail = h.tail)
    (hactive : h'.active = h.active) : OutputInv (e :: log) h' := by
  refine hinv.keep he htail ?_ ?_ ?_ ?_
  · rw [hphase]
    nofun
  · intro c' hc'
    refine ⟨c', ?_, rfl, rfl⟩
    rw [← hc']
    cases joining <;> simp only [Hub.attached, hphase, hphase', hactive]
  · intro c' hc'
    refine .inl ?_
    rw [← hc']
    cases joining <;> simp only [Hub.joiner, hphase, hphase']
  · intro c' records' happlying
    rw [hphase'] at happlying
    cases happlying
    rw [hactive]
    exact hinv.alone c records hphase

/-- One event. -/
theorem on (hinv : OutputInv log h) (hsteady : h.Steady) (hroles : RolesInv log h)
    (hon : h.On e h') : OutputInv (e :: log) h' := by
  cases hon with
  | quiet hop => exact hinv.stay (noOutput_of_quiet hop _)
  | trace hop => exact hinv.stay (noOutput_of_traces hop _)
  | ptyEof | ptyError | acceptError | wait | close =>
    exact hinv.stay ⟨rfl, fun _ => rfl, fun _ h => by cases h⟩
  | closeLeaving =>
    exact hinv.keep ⟨rfl, fun _ => rfl, fun _ h => by cases h⟩ rfl id (fun c hc => ⟨c, hc, rfl, rfl⟩)
      (fun c hc => .inl hc) hinv.alone
  | readPty _ hphase =>
    refine hinv.extend ?_ ?_
    · rcases hphase with hphase | ⟨status, hphase⟩
      · exact Phase.plain_of_idle hphase
      · exact hphase ▸ Phase.Calm.plain trivial
    · rcases hphase with hphase | ⟨status, hphase⟩
      · exact fun h => Phase.noConfusion (hphase.symm.trans h)
      · exact fun h => Phase.noConfusion (hphase.symm.trans h)
  | writeActive _ hphase hactive =>
    refine hinv.writeActive ?_ hactive _
    rcases hphase with hphase | hended
    · exact Phase.plain_of_idle hphase
    · exact hended.calm.plain
  | attach _ hphase hreplay => exact hinv.attach hsteady hphase hreplay
  | @activate c _ hphase =>
    refine hinv.activate hphase (expected_eq_none.mpr fun e he hactivates => ?_)
    refine (hroles.activated c.stream ⟨e, he, hactivates⟩).2 ?_
    simp [Hub.joining, hphase, Phase.joining]
  | @writePty r _ hphase =>
    have he : NoOutput ⟨.process (.writePty h.ptyInput.bytes), r⟩ := ⟨rfl, fun _ => rfl, fun _ h => by cases h⟩
    unfold Hub.writePty
    cases h.ptyInput.afterWrite r with
    | some queue => exact hinv.move he (Phase.plain_of_idle hphase) (Phase.plain_of_idle hphase) rfl id (.inr rfl)
    | none => exact hinv.move he (Phase.plain_of_idle hphase) (Phase.plain_of_idle hphase) rfl id (.inl rfl)
  | @readActive c capacity r _ hphase hactive =>
    have he : NoOutput ⟨.socket (.read c.stream capacity), r⟩ := ⟨rfl, fun _ => rfl, fun _ h => by cases h⟩
    unfold Hub.readActive
    cases hr : c.receive r with
    | blocked => exact hinv.stay he
    | failed => exact hinv.move he (Phase.plain_of_idle hphase) (Phase.plain_of_idle hphase) rfl id (.inl rfl)
    | records c' records =>
      obtain ⟨hstream, houtput, -⟩ := receive_records hr
      refine hinv.keep he rfl (Phase.unfinished_of_idle hphase) ?_ (fun _ h => by cases h)
        fun _ _ _ => rfl
      rintro _ ⟨⟩
      refine ⟨c, ?_, hstream, congrArg ByteQueue.bytes houtput⟩
      simp only [Hub.attached, hphase, hactive]
  | @readCandidate c capacity r _ hphase hcandidate =>
    have he : NoOutput ⟨.socket (.read c.stream capacity), r⟩ := ⟨rfl, fun _ => rfl, fun _ h => by cases h⟩
    unfold Hub.readCandidate
    cases c.receive r with
    | blocked => exact hinv.stay he
    | failed => exact hinv.move he (Phase.plain_of_idle hphase) (Phase.plain_of_idle hphase) rfl id (.inr rfl)
    | records c' records =>
      cases records with
      | nil => exact hinv.move he (Phase.plain_of_idle hphase) (Phase.plain_of_idle hphase) rfl id (.inr rfl)
      | cons record records =>
        exact hinv.move he (Phase.plain_of_idle hphase) (Phase.plain_greeting _ _) rfl (Phase.unfinished_of_idle hphase) (.inr rfl)
  | accept _ hphase | exit _ hphase =>
    refine hinv.move ⟨rfl, fun _ => rfl, fun _ h => by cases h⟩ (Phase.plain_of_idle hphase) ?_ rfl
      (Phase.unfinished_of_idle hphase) (.inr rfl)
    exact Phase.Calm.plain trivial
  | stop _ hphase =>
    refine hinv.move ⟨rfl, fun _ => rfl, fun _ h => by cases h⟩ ?_ (Phase.Calm.plain trivial) rfl ?_
      (.inr rfl)
    · exact hphase ▸ Phase.plain_stopping _
    · exact fun h => Phase.noConfusion (hphase.symm.trans h)
  | resize _ hphase | input _ hphase =>
    exact hinv.apply ⟨rfl, fun _ => rfl, fun _ h => by cases h⟩ hphase rfl rfl rfl
  | windowError _ hphase =>
    have hunfinished : h.phase ≠ .finished := by
      intro hfinished
      rw [hfinished] at hphase
      exact hphase trivial
    refine hinv.keep ⟨rfl, fun _ => rfl, fun _ h => by cases h⟩ rfl (fun h => absurd h hunfinished) ?_
      (fun _ h => by cases h) (fun _ _ h => by cases h)
    intro c hc
    exact ⟨c, hinv.attached_of_active hc, rfl, rfl⟩

/-- What the hub does between events. -/
theorem silent (hinv : OutputInv log h) (hsilent : h.Silent h') : OutputInv log h' := by
  -- the hub turns to no records, and keeps its attachment
  have hturn : ∀ (phase : Phase) (candidate : Option Connection) (leaving : Option Fd),
      h.phase ≠ .finished → phase.Plain →
        OutputInv log { h with phase, candidate, leaving } := by
    intro phase candidate leaving hunfinished hplain
    refine of_plain hplain hinv.tail hinv.unsent (fun fd shown hshown => ?_) fun c hc => ?_
    · exact (hinv.faithful fd shown hshown).unfinished hunfinished
    · obtain ⟨shown, hshown, hqueued⟩ := hinv.attached c (hinv.attached_of_active hc)
      exact ⟨shown, hshown, hqueued.unfinished hunfinished⟩
  cases hsilent with
  | seat hphase | turnAway hphase | dismiss hphase | stop hphase | refuse hphase =>
    exact hturn _ _ _ (by rw [hphase]; nofun) nofun
  | @applied c hphase =>
    have hunfinished : h.phase ≠ .finished := by rw [hphase]; nofun
    refine of_plain nofun hinv.tail hinv.unsent (fun fd shown hshown => ?_) ?_
    · exact (hinv.faithful fd shown hshown).unfinished hunfinished
    · rintro _ ⟨⟩
      obtain ⟨shown, hshown, hqueued⟩ := hinv.attached c (by simp only [Hub.attached, hphase])
      exact ⟨shown, hshown, hqueued.unfinished hunfinished⟩
  | @finish c exit encoded hended hunfinished hactive hencoded hfits =>
    refine of_plain nofun hinv.tail hinv.unsent (fun fd shown hshown => ?_) ?_
    · exact (hinv.faithful fd shown hshown).unfinished hunfinished
    · rintro _ ⟨⟩
      obtain ⟨shown, hshown, chunks, none | _, hsendable, hflatten, hbytes, hexit⟩ :=
        hinv.attached c (hinv.attached_of_active hactive)
      · refine ⟨shown, hshown, chunks, some exit, hsendable, hflatten, ?_, fun _ => rfl⟩
        rw [plan_none] at hbytes
        rw [plan_some, ← hbytes, ByteQueue.push_true hfits, encodeRecord_ok hencoded,
          List.append_assoc]
      · exact absurd (hexit rfl) hunfinished

end OutputInv

/-- **The output of a hub**: what every attachment was sent is a part of what it is to be shown. -/
theorem Serves.output {log : RunnerLog} {h : Hub} (hserves : Serves log h)
    (hnodup : (accepted log).Nodup) : OutputInv log h := by
  induction hserves with
  | start =>
    exact .of_plain nofun (OutputTail.keeps_new _) (fun _ _ => rfl) nofun nofun
  | event hserves hon ih =>
    have hbefore := nodup_of_cons hnodup
    exact (ih hbefore).on hserves.steady (hserves.roles hbefore) hon
  | silent _ _ hsilent ih => exact (ih hnodup).silent hsilent

/-! ## The attachment's side -/

/-- The encoding of an exit decodes to the exit, or to nothing. -/
theorem drain_exit (exit : ProcessExit) :
    (ipcFormat.drain (writeRecord (.exit exit) ++ [])).1 <+: [.exit exit] := by
  by_cases hvalid : (Record.exit exit).Valid
  · rw [Format.drain_done (cut_encode hvalid []), List.append_nil, List.drop_length,
      Format.drain_more rfl]
  · cases exit with
    | code code => exact absurd trivial hvalid
    | signal signal =>
      have hcut : ipcFormat.cut (writeRecord (.exit (.signal signal)) ++ []) =
          .fail .invalidPayload := by
        have hexit : decodePayload 6 [1, signal] = .error .invalidPayload := by
          have hdecode : decodeExit [1, signal] = .error .invalidPayload := by
            rw [decodeExit, if_neg (by decide), if_neg]
            rintro ⟨-, hrange⟩
            exact hvalid hrange
          rw [decodePayload, hdecode]
          rfl
        have hwrite : writeRecord (.exit (.signal signal)) ++ [] = [6, 0, 0, 0, 2, 1, signal] := by
          simp [writeRecord, encodedShape, encodedPayload, be32, exitKind]
        have hlength : fromBe32 0 0 0 2 = 2 := by decide
        rw [ipcFormat_cut, hwrite, ipcCut, hlength, if_neg (by decide), if_neg (by simp)]
        simp only [List.take_succ_cons, List.take_zero, hexit]
      rw [Format.drain_fail hcut]
      exact List.nil_prefix

/-- What a part of the records' encoding decodes to is a part of the records. -/
theorem drain_plan {chunks : List Bytes} {exit : Option ProcessExit} {bytes : Bytes}
    (hsendable : Sendable chunks) (hbytes : bytes <+: (plan chunks exit).flatMap writeRecord) :
    (ipcFormat.drain bytes).1 <+: plan chunks exit := by
  have hvalid : ∀ record ∈ chunks.map Record.output, record.Valid := by
    intro record hrecord
    obtain ⟨chunk, hchunk, rfl⟩ := List.mem_map.mp hrecord
    exact hsendable chunk hchunk
  obtain ⟨more, hmore⟩ := hbytes
  refine (drain_extends bytes more).trans ?_
  rw [hmore, plan, List.flatMap_append,
    Format.drain_flatMap (F := ipcFormat) fun r hr c => cut_encode (hvalid r hr) c]
  refine List.prefix_append_right_inj _ |>.mpr ?_
  cases exit with
  | none =>
    rw [Option.toList_none, List.map_nil, List.flatMap_nil, Format.drain_more rfl]
  | some exit =>
    simp only [Option.toList_some, List.map_cons, List.map_nil, List.flatMap_cons, List.flatMap_nil]
    exact drain_exit exit

/-- A part of the planned records is output, and the exit only after all of it. -/
theorem prefix_plan {chunks : List Bytes} {exit : Option ProcessExit} {records : List Record}
    (h : records <+: plan chunks exit) :
    ∃ chunks' exit', records = plan chunks' exit' ∧ chunks'.flatten <+: chunks.flatten ∧
      (exit'.isSome → exit.isSome ∧ chunks'.flatten = chunks.flatten) := by
  have houtput : records <+: chunks.map Record.output →
      ∃ chunks' exit', records = plan chunks' exit' ∧ chunks'.flatten <+: chunks.flatten ∧
        (exit'.isSome → exit.isSome ∧ chunks'.flatten = chunks.flatten) := by
    intro hpart
    have htake : records = (chunks.take records.length).map Record.output := by
      rw [List.map_take]
      exact List.prefix_iff_eq_take.mp hpart
    refine ⟨chunks.take records.length, none, ?_, ?_, nofun⟩
    · rw [plan, Option.toList_none, List.map_nil, List.append_nil]
      exact htake
    · exact (List.take_prefix _ _).flatten
  cases exit with
  | none =>
    rw [plan, Option.toList_none, List.map_nil, List.append_nil] at h
    exact houtput h
  | some exit =>
    rw [plan, Option.toList_some, List.map_singleton] at h
    rcases List.prefix_concat_iff.mp h with rfl | hpart
    · exact ⟨chunks, some exit, rfl, List.prefix_refl _, fun _ => ⟨rfl, rfl⟩⟩
    · exact houtput hpart

/-- What an attachment is shown: the replay of what was read before its activation, and what is
read since. -/
theorem Serves.expected_eq {after before : RunnerLog} {e : RunnerEvent} {fd : Fd} {h : Hub}
    (hserves : Serves (after ++ e :: before) h) (hnodup : (accepted (after ++ e :: before)).Nodup)
    (he : Activates fd e) :
    expected fd (after ++ e :: before) = some (replay (ptyRead before) ++ ptyRead after) := by
  induction after generalizing h with
  | nil =>
    rw [List.nil_append, expected, if_pos he, ptyRead, List.append_nil]
  | cons e' after ih =>
    obtain ⟨h₀, h₁, hserves₀, hon⟩ := hserves.of_cons
    have hnodup₀ := nodup_of_cons hnodup
    -- a connection is activated only once
    have honce : ¬ Activates fd e' := by
      intro hagain
      have hjoining := (hon.activates hagain (hserves₀.input hnodup₀).nodup).1
      exact ((hserves₀.roles hnodup₀).activated fd ⟨e, by simp, he⟩).2 hjoining
    rw [List.cons_append, expected_cons honce, ih hserves₀ hnodup₀, Option.map_some,
      List.append_assoc, ptyRead]

/-- **Replay before live output.** Along every run of the runner, an attachment that reads what it
was sent, cut in any way, decodes output records and at most one exit after them. The output is a
part of the replay of what the terminal had shown before the activation followed by everything read
from the terminal since; once the exit is decoded it is all of it. -/
theorem replay_before_live (ctx : RunnerContext) (trace : Option Trace) {log : RunnerLog}
    {p : Prog (Except IoError Unit)} (hrun : Runs connections (ctx.serve trace).run log p)
    {after before : RunnerLog} {e : RunnerEvent} {fd : Fd} (hlog : log = after ++ e :: before)
    (he : Activates fd e) {pieces : List Bytes} (hfits : Decoder.empty.Fits pieces)
    (hpieces : pieces.flatten <+: sent fd log) :
    ∃ (chunks : List Bytes) (exit : Option ProcessExit),
      (Decoder.empty.readPieces pieces).1 = chunks.map .output ++ exit.toList.map .exit ∧
        chunks.flatten <+: replay (ptyRead before) ++ ptyRead after ∧
          (exit.isSome → chunks.flatten = replay (ptyRead before) ++ ptyRead after) := by
  obtain ⟨h, hserves⟩ := serves_of_runs hrun
  have hnodup := nodup_of_allowed hrun.allowed
  subst hlog
  obtain ⟨chunks, exit, hsendable, hshown, hsent, hexit⟩ :=
    (hserves.output hnodup).faithful fd _ (hserves.expected_eq hnodup he)
  have hdecoded := drain_plan hsendable (hpieces.trans hsent)
  obtain ⟨chunks', exit', hrecords, hpart, hend⟩ := prefix_plan hdecoded
  refine ⟨chunks', exit', ?_, hpart.trans hshown, fun hsome => ?_⟩
  · rw [(readPieces_empty hfits).1]
    exact hrecords
  · obtain ⟨htold, hflatten⟩ := hend hsome
    rw [hflatten]
    exact (hexit htold).2

/-- The terminal shows something, a connection attaches, and the terminal shows more. -/
def showingScene : Scene where
  accepts := [.ok 5]
  reads := [.ok (writeRecord (.attach 24 80))]
  polls := [Scene.atListener, Scene.atCandidate,
    { Scene.atActive with active := Scene.writable }]
  ptyReads := [.ok (ascii "old"), .error (.os .wouldBlock 11), .error (.os .wouldBlock 11),
    .ok (ascii "new")]

/-- The log of a run in that scene. -/
def showingLog : RunnerLog := (play Scene.answer 32 showingScene [] (exampleContext.serve none).run).1

theorem showingLog_length : 12 < showingLog.length := by decide +kernel

/-- The event that makes the connection the active one, and what was shown before it. -/
theorem showingLog_activates : Activates 5 (showingLog.get ⟨12, showingLog_length⟩) ∧
    ptyRead (showingLog.drop 13) = ascii "old" := by decide +kernel

theorem showingLog_sent : sent 5 showingLog =
    writeRecord (.output (ascii "old")) ++ writeRecord (.output (ascii "new")) := by
  decide +kernel

theorem replay_before_live_new : ∃ log p before after,
    Runs connections (exampleContext.serve none).run log p ∧
      (∃ e, log = after ++ e :: before ∧ Activates 5 e) ∧
      ptyRead before = ascii "old" ∧ ptyRead log = ascii "oldnew" ∧
      sent 5 log = writeRecord (.output (ascii "old")) ++ writeRecord (.output (ascii "new")) ∧
      ∃ (chunks : List Bytes) (exit : Option ProcessExit),
        (Decoder.empty.readPieces [sent 5 log]).1 = chunks.map .output ++ exit.toList.map .exit ∧
          chunks.flatten <+: replay (ptyRead before) ++ ptyRead after := by
  have hrun : Runs connections (exampleContext.serve none).run showingLog _ :=
    runs_play (n := 32) (by decide +kernel)
  have hlog : showingLog = showingLog.take 12 ++ (showingLog.get ⟨12, showingLog_length⟩) ::
      showingLog.drop 13 := by
    rw [List.get_eq_getElem, ← List.drop_eq_getElem_cons, List.take_append_drop]
  have hfits : Decoder.empty.Fits [sent 5 showingLog] := by
    rw [showingLog_sent]
    exact Decoder.fits_of_short (by decide) (by decide)
  obtain ⟨chunks, exit, hrecords, hpart, -⟩ := replay_before_live exampleContext none hrun hlog
    showingLog_activates.1 hfits (by simp)
  exact ⟨showingLog, _, _, _, hrun, ⟨_, hlog, showingLog_activates.1⟩, showingLog_activates.2,
    by decide +kernel, showingLog_sent, chunks, exit, hrecords, hpart⟩

end AfkCli
