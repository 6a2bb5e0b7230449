import AfkCli.Completion

/-!
# Where terminal input comes from

The terminal's input is made of the input records of attachments, in the order in which they were
accepted. What a connection contributes is determined by its own stream.

## Main definitions

* `inputs`: the payloads of input records
* `Hub.streams`: the connections a hub holds
* `Fed`: what a hub has done with a connection's stream
* `InputInv`: the invariant of a hub's input

## Main results

* `Serves.input`: the invariant holds along every log
-/

namespace AfkCli

open Interaction

/-- The payload of an input record. -/
def Record.inputBytes : Record → Bytes
  | .input bytes => bytes
  | _ => []

/-- The payloads of input records. -/
def inputs (records : List Record) : Bytes := records.flatMap Record.inputBytes

@[simp] theorem inputs_nil : inputs [] = [] := rfl

@[simp] theorem inputs_append (records records' : List Record) :
    inputs (records ++ records') = inputs records ++ inputs records' :=
  List.flatMap_append

@[simp] theorem inputs_singleton (record : Record) : inputs [record] = record.inputBytes := by
  simp [inputs]

/-- A record that an attachment may send. -/
def Record.Admissible : Record → Prop
  | .input _ | .resize .. => True
  | _ => False

/-- The records begin with an `Attach`, and go on with what an attachment may send. -/
def Attached (records : List Record) : Prop :=
  ∃ rows columns rest, records = .attach rows columns :: rest ∧
    ∀ record ∈ rest, record.Admissible

theorem Attached.append {records : List Record} {record : Record} (h : Attached records)
    (hrecord : record.Admissible) : Attached (records ++ [record]) := by
  obtain ⟨rows, columns, rest, rfl, hrest⟩ := h
  refine ⟨rows, columns, rest ++ [record], rfl, fun r hr => ?_⟩
  rcases List.mem_append.mp hr with hr | hr
  · exact hrest r hr
  · rwa [List.mem_singleton.mp hr]

/-! ## Connections -/

/-- The streams of the connections a phase holds. -/
def Phase.streams : Phase → List Fd
  | accepted stream => [stream]
  | greeting connection _ | applying _ connection _ => [connection.stream]
  | _ => []

/-- The streams of the connections a hub holds. -/
def Hub.streams (h : Hub) : List Fd :=
  h.phase.streams ++ (h.active.map (·.stream)).toList ++ (h.candidate.map (·.stream)).toList

/-- What the hub has applied of the connection's stream, what it is about to apply, and what the
decoder holds. -/
structure Fed (log : RunnerLog) (c : Connection) (applied rest : List Record) : Prop where
  stream : ipcFormat.drain (received c.stream log) = (applied ++ rest, .ok c.decoder.buffer)
  contributed : contributed c.stream log = inputs applied

/-- What a connection of a phase was fed. -/
def Phase.Fed (log : RunnerLog) : Phase → Prop
  | accepted stream => received stream log = [] ∧ contributed stream log = []
  | greeting c records => AfkCli.Fed log c [] records
  | applying _ c records => ∃ applied, Attached applied ∧ AfkCli.Fed log c applied records
  | stopping stream | stopped stream =>
    ∃ rest, ipcFormat.drain (received stream log) = ([.stop], .ok rest)
  | _ => True

/-- A connection contributes input only after an `Attach`, and then a prefix of its records'. -/
def Provenance (fd : Fd) (log : RunnerLog) : Prop :=
  ∃ applied, applied <+: (ipcFormat.drain (received fd log)).1 ∧
    contributed fd log = inputs applied ∧ (applied = [] ∨ Attached applied)

/-- The invariant of a hub's input. -/
structure InputInv (log : RunnerLog) (h : Hub) : Prop where
  accepted : ∀ fd ∈ h.streams, fd ∈ accepted log
  nodup : h.streams.Nodup
  active : ∀ c, h.active = some c → ∃ applied, Attached applied ∧ Fed log c applied []
  candidate : ∀ c, h.candidate = some c → Fed log c [] []
  phase : h.phase.Fed log
  provenance : ∀ fd, Provenance fd log
  unknown : ∀ fd, fd ∉ AfkCli.accepted log → received fd log = [] ∧ contributed fd log = []
  queue : ptyWritten log ++ h.ptyInput.bytes = typed log

/-! ## Events -/

/-- The event carries no input: nothing was received, accepted or typed. -/
structure NoInput (e : RunnerEvent) : Prop where
  received : ∀ fd, receivedBy fd e = []
  contributed : ∀ fd, contributedBy fd e = []
  accepted : acceptedBy e = []
  typed : typedBy e = []

theorem noInput_of_quiet {op : Call} (h : Quiet op) (r : op.Answer) :
    NoInput ⟨op, r⟩ ∧ writtenBy ⟨op, r⟩ = [] := by
  rcases op with op | op | op | op | op <;> cases op <;> first
    | exact h.elim
    | exact ⟨⟨fun _ => rfl, fun _ => rfl, rfl, rfl⟩, rfl⟩

theorem noInput_of_traces {op : Call} (h : Traces op) (r : op.Answer) :
    NoInput ⟨op, r⟩ ∧ writtenBy ⟨op, r⟩ = [] := by
  rcases op with op | op | op | op | op <;> cases op <;> first
    | exact h.elim
    | exact ⟨⟨fun _ => rfl, fun _ => rfl, rfl, rfl⟩, rfl⟩

section views

variable {e : RunnerEvent} {log : RunnerLog} {fd : Fd}

theorem received_cons (h : receivedBy fd e = []) : received fd (e :: log) = received fd log := by
  rw [received, h, List.append_nil]

theorem contributed_cons (h : contributedBy fd e = []) :
    contributed fd (e :: log) = contributed fd log := by
  rw [contributed, h, List.append_nil]

theorem accepted_cons (h : acceptedBy e = []) : accepted (e :: log) = accepted log := by
  rw [accepted, h, List.nil_append]

/-- A connection that the event leaves alone keeps what it was fed. -/
theorem Fed.cons {c : Connection} {applied rest : List Record} (h : Fed log c applied rest)
    (hreceived : receivedBy c.stream e = []) (hcontributed : contributedBy c.stream e = []) :
    Fed (e :: log) c applied rest := by
  constructor
  · rw [received_cons hreceived]
    exact h.stream
  · rw [contributed_cons hcontributed]
    exact h.contributed

theorem Phase.Fed.cons {phase : Phase} (h : phase.Fed log) (he : NoInput e) :
    phase.Fed (e :: log) := by
  cases phase with
  | accepted stream =>
    simp only [Phase.Fed]
    rw [received_cons (he.received _), contributed_cons (he.contributed _)]
    exact h
  | greeting c records => exact AfkCli.Fed.cons h (he.received _) (he.contributed _)
  | applying joining c records =>
    obtain ⟨applied, happlied, hfed⟩ := h
    exact ⟨applied, happlied, hfed.cons (he.received _) (he.contributed _)⟩
  | stopping stream =>
    simp only [Phase.Fed]
    rw [received_cons (he.received _)]
    exact h
  | stopped stream =>
    simp only [Phase.Fed]
    rw [received_cons (he.received _)]
    exact h
  | idle => trivial
  | exited => trivial
  | finished => trivial

end views

/-! ## The invariant -/

/-- What was decoded of a stream stays decoded. -/
theorem drain_extends (b c : Bytes) : (ipcFormat.drain b).1 <+: (ipcFormat.drain (b ++ c)).1 := by
  rw [Format.drain_append]
  rcases ipcFormat.drain b with ⟨records, error | rest⟩
  · exact List.prefix_refl _
  · exact List.prefix_append _ _

theorem Provenance.cons {fd : Fd} {log : RunnerLog} {e : RunnerEvent} (h : Provenance fd log)
    (hcontributed : contributedBy fd e = []) : Provenance fd (e :: log) := by
  obtain ⟨applied, hpart, happlied, hattached⟩ := h
  refine ⟨applied, hpart.trans ?_, ?_, hattached⟩
  · exact drain_extends _ _
  · rw [contributed_cons hcontributed]
    exact happlied

namespace InputInv

variable {log : RunnerLog} {h h' : Hub} {e : RunnerEvent}

/-- An event that is not a new connection nor input. -/
theorem frame (hinv : InputInv log h) (hcontributed : ∀ fd, contributedBy fd e = [])
    (haccepted : acceptedBy e = [])
    (hreceived : ∀ fd, fd ∉ AfkCli.accepted log → receivedBy fd e = [])
    (hqueue : writtenBy e ++ h'.ptyInput.bytes = h.ptyInput.bytes ++ typedBy e)
    (hstreams : List.Subperm h'.streams h.streams)
    (hactive : ∀ c, h'.active = some c → ∃ applied, Attached applied ∧ Fed (e :: log) c applied [])
    (hcandidate : ∀ c, h'.candidate = some c → Fed (e :: log) c [] [])
    (hphase : h'.phase.Fed (e :: log)) : InputInv (e :: log) h' where
  accepted fd hfd := by
    rw [accepted_cons haccepted]
    exact hinv.accepted fd (hstreams.subset hfd)
  nodup := by
    obtain ⟨streams, hperm, hsub⟩ := hstreams
    exact hperm.nodup_iff.mp (hsub.nodup hinv.nodup)
  active := hactive
  candidate := hcandidate
  phase := hphase
  provenance fd := (hinv.provenance fd).cons (hcontributed fd)
  unknown fd hfd := by
    rw [accepted_cons haccepted] at hfd
    rw [received_cons (hreceived fd hfd), contributed_cons (hcontributed fd)]
    exact hinv.unknown fd hfd
  queue := by
    rw [ptyWritten, typed, List.append_assoc, hqueue, ← List.append_assoc, hinv.queue]

/-- An event without input, after which the hub holds the connections it held, or fewer. -/
theorem quiet (hinv : InputInv log h) (he : NoInput e)
    (hqueue : writtenBy e ++ h'.ptyInput.bytes = h.ptyInput.bytes)
    (hstreams : List.Subperm h'.streams h.streams)
    (hactive : ∀ c, h'.active = some c →
      ∃ c₀, h.active = some c₀ ∧ c.stream = c₀.stream ∧ c.decoder = c₀.decoder)
    (hcandidate : ∀ c, h'.candidate = some c → h.candidate = some c)
    (hphase : h'.phase.Fed log) : InputInv (e :: log) h' := by
  refine hinv.frame he.contributed he.accepted (fun fd _ => he.received fd) ?_ hstreams ?_ ?_
    (hphase.cons he)
  · rw [he.typed, List.append_nil]
    exact hqueue
  · intro c hc
    obtain ⟨c₀, hc₀, hstream, hdecoder⟩ := hactive c hc
    obtain ⟨applied, happlied, hfed⟩ := hinv.active c₀ hc₀
    have hfed := hfed.cons (e := e) (he.received _) (he.contributed _)
    refine ⟨applied, happlied, ?_, ?_⟩
    · rw [hstream, hdecoder]
      exact hfed.stream
    · rw [hstream]
      exact hfed.contributed
  · intro c hc
    exact (hinv.candidate c (hcandidate c hc)).cons (he.received _) (he.contributed _)

/-- An event without input that leaves the hub's connections alone. -/
theorem same (hinv : InputInv log h) (he : NoInput e) (hwritten : writtenBy e = []) :
    InputInv (e :: log) h := by
  refine hinv.quiet he ?_ (.refl _) (fun c hc => ⟨c, hc, rfl, rfl⟩) (fun c hc => hc)
    hinv.phase
  rw [hwritten, List.nil_append]

theorem extend (hinv : InputInv log h) (he : NoInput e) (hwritten : writtenBy e = [])
    (bytes : Bytes) : InputInv (e :: log) (h.extend bytes) := by
  unfold Hub.extend
  dsimp only
  split
  · refine hinv.quiet he ?_ (.refl _) (fun c hc => ⟨c, hc, rfl, rfl⟩) (fun c hc => hc)
      hinv.phase
    rw [hwritten, List.nil_append]
  · rename_i c hactive
    cases hqueue : enqueueOutput c bytes with
    | error error =>
      refine hinv.quiet he ?_ ?_ nofun (fun c hc => hc) hinv.phase
      · rw [hwritten, List.nil_append]
      · exact (((List.nil_sublist _).append_left _).append_right _).subperm
    | ok queued =>
      have hsame := (enqueueOutput_ok hqueue).1
      refine hinv.quiet he ?_ ?_ ?_ (fun c hc => hc) hinv.phase
      · rw [hwritten, List.nil_append]
      · simp only [Hub.streams, hactive, Option.map_some, hsame.stream]
        exact .refl _
      · rintro _ ⟨⟩
        exact ⟨c, hactive, hsame.stream, hsame.decoder⟩

theorem writeActive {c : Connection} (hinv : InputInv log h) (he : NoInput e)
    (hwritten : writtenBy e = []) (hactive : h.active = some c) (r : Except IoError Nat) :
    InputInv (e :: log) (h.writeActive c r) := by
  unfold Hub.writeActive
  cases c.output.afterWrite r with
  | none =>
    refine hinv.quiet he ?_ ?_ nofun (fun c hc => hc) hinv.phase
    · rw [hwritten, List.nil_append]
    · exact (((List.nil_sublist _).append_left _).append_right _).subperm
  | some output =>
    refine hinv.quiet he ?_ ?_ ?_ (fun c hc => hc) hinv.phase
    · rw [hwritten, List.nil_append]
    · simp only [Hub.streams, hactive, Option.map_some]
      exact .refl _
    · rintro _ ⟨⟩
      exact ⟨c, hactive, rfl, rfl⟩

end InputInv

theorem receivedBy_of_ne {fd stream : Fd} {capacity : Nat} {r : Except IoError Bytes}
    (h : fd ≠ stream) : receivedBy fd ⟨.socket (.read stream capacity), r⟩ = [] := by
  rcases r with error | bytes
  · rfl
  · simp only [receivedBy]
    exact if_neg (Ne.symm h)

/-- The hub reads records of a connection it has applied all records of. -/
theorem Fed.receive {log : RunnerLog} {c c' : Connection} {applied records : List Record}
    (h : Fed log c applied []) (capacity : Nat) {r : Except IoError Bytes}
    (hr : c.receive r = .records c' records) :
    Fed (⟨.socket (.read c.stream capacity), r⟩ :: log) c' applied records := by
  obtain ⟨hstream, -, bytes, -, rfl, hdrain⟩ := receive_records hr
  constructor
  · rw [hstream]
    simp only [received, receivedBy, if_pos]
    rw [Format.drain_append, h.stream]
    simp only [List.append_nil, hdrain]
  · rw [hstream, AfkCli.contributed]
    exact (List.append_nil _).trans h.contributed

theorem receivedBy_of_blocked {c : Connection} {r : Except IoError Bytes}
    (h : c.receive r = .blocked) (stream : Fd) (capacity : Nat) (fd : Fd) :
    receivedBy fd ⟨.socket (.read stream capacity), r⟩ = [] := by
  rcases r with error | (_ | ⟨byte, bytes⟩)
  · rfl
  · cases h
  · simp only [Connection.receive] at h
    split at h
    · cases h
    · split at h <;> cases h

namespace InputInv

/-- The hub reads a connection, and keeps the others. -/
theorem read {log : RunnerLog} {h h' : Hub} {stream : Fd} {capacity : Nat}
    {r : Except IoError Bytes} (hinv : InputInv log h) (hmem : stream ∈ h.streams)
    (hptyInput : h'.ptyInput = h.ptyInput) (hstreams : List.Subperm h'.streams h.streams)
    (hactive : ∀ c, h'.active = some c → h.active = some c ∧ c.stream ≠ stream)
    (hcandidate : ∀ c, h'.candidate = some c →
      (h.candidate = some c ∧ c.stream ≠ stream) ∨
        Fed (⟨.socket (.read stream capacity), r⟩ :: log) c [] [])
    (hphase : h'.phase.Fed (⟨.socket (.read stream capacity), r⟩ :: log)) :
    InputInv (⟨.socket (.read stream capacity), r⟩ :: log) h' := by
  refine hinv.frame (fun _ => rfl) rfl ?_ ?_ hstreams ?_ ?_ hphase
  · intro fd hfd
    refine receivedBy_of_ne ?_
    rintro rfl
    exact hfd (hinv.accepted _ hmem)
  · rw [hptyInput]
    simp [writtenBy, typedBy]
  · intro c hc
    obtain ⟨hc, hne⟩ := hactive c hc
    obtain ⟨applied, happlied, hfed⟩ := hinv.active c hc
    exact ⟨applied, happlied, hfed.cons (receivedBy_of_ne hne) rfl⟩
  · intro c hc
    rcases hcandidate c hc with ⟨hc, hne⟩ | hfed
    · exact (hinv.candidate c hc).cons (receivedBy_of_ne hne) rfl
    · exact hfed

/-- The streams of the attachment and of the candidate are different. -/
theorem ne_of_active {log : RunnerLog} {h : Hub} {c c' : Connection} (hinv : InputInv log h)
    (hactive : h.active = some c) (hcandidate : h.candidate = some c') : c.stream ≠ c'.stream := by
  have hnodup := hinv.nodup
  simp only [Hub.streams, hactive, hcandidate, Option.map_some, Option.toList_some] at hnodup
  rw [List.append_assoc] at hnodup
  have := (List.nodup_append.mp hnodup).2.1
  simpa using this

theorem readActive {log : RunnerLog} {h : Hub} {c : Connection} {capacity : Nat}
    (hinv : InputInv log h) (hphase : h.phase = .idle) (hactive : h.active = some c)
    (r : Except IoError Bytes) :
    InputInv (⟨.socket (.read c.stream capacity), r⟩ :: log) (h.readActive c r) := by
  have hmem : c.stream ∈ h.streams := by simp [Hub.streams, hactive]
  have hothers : ∀ c', h.candidate = some c' → c'.stream ≠ c.stream :=
    fun c' hc' => (hinv.ne_of_active hactive hc').symm
  unfold Hub.readActive
  cases hr : c.receive r with
  | blocked =>
    exact hinv.same ⟨receivedBy_of_blocked hr _ _, fun _ => rfl, rfl, rfl⟩ rfl
  | failed =>
    refine hinv.read hmem rfl ?_ nofun (fun c' hc' => .inl ⟨hc', hothers c' hc'⟩) ?_
    · exact (((List.nil_sublist _).append_left _).append_right _).subperm
    · rw [hphase]
      trivial
  | records c' records =>
    obtain ⟨hstream, -⟩ := receive_records hr
    obtain ⟨applied, happlied, hfed⟩ := hinv.active c hactive
    refine hinv.read hmem rfl ?_ nofun (fun c' hc' => .inl ⟨hc', hothers c' hc'⟩) ?_
    · simp only [Hub.streams, Phase.streams, hphase, hactive, hstream, Option.map_some,
        Option.map_none, Option.toList_some, Option.toList_none, List.nil_append, List.append_nil]
      exact .refl _
    · exact ⟨applied, happlied, hfed.receive _ hr⟩

theorem readCandidate {log : RunnerLog} {h : Hub} {c : Connection} {capacity : Nat}
    (hinv : InputInv log h) (hphase : h.phase = .idle) (hcandidate : h.candidate = some c)
    (r : Except IoError Bytes) :
    InputInv (⟨.socket (.read c.stream capacity), r⟩ :: log) (h.readCandidate c r) := by
  have hmem : c.stream ∈ h.streams := by simp [Hub.streams, hcandidate]
  have hothers : ∀ c', h.active = some c' → h.active = some c' ∧ c'.stream ≠ c.stream :=
    fun c' hc' => ⟨hc', hinv.ne_of_active hc' hcandidate⟩
  unfold Hub.readCandidate
  cases hr : c.receive r with
  | blocked =>
    exact hinv.same ⟨receivedBy_of_blocked hr _ _, fun _ => rfl, rfl, rfl⟩ rfl
  | failed =>
    refine hinv.read hmem rfl ?_ hothers nofun ?_
    · exact ((List.nil_sublist _).append_left _).subperm
    · rw [hphase]
      trivial
  | records c' records =>
    obtain ⟨hstream, -⟩ := receive_records hr
    have hfed := (hinv.candidate c hcandidate).receive capacity hr
    cases records with
    | nil =>
      refine hinv.read hmem rfl ?_ hothers ?_ ?_
      · simp only [Hub.streams, hcandidate, hstream, Option.map_some]
        exact .refl _
      · rintro _ ⟨⟩
        exact .inr hfed
      · rw [hphase]
        trivial
    | cons record records =>
      refine hinv.read hmem rfl ?_ hothers nofun hfed
      · simp only [Hub.streams, Phase.streams, hphase, hcandidate, hstream, Option.map_some,
          Option.map_none, Option.toList_some, Option.toList_none, List.nil_append, List.append_nil]
        exact List.perm_append_comm.subperm

theorem accept {log : RunnerLog} {h : Hub} {listener stream : Fd} (hinv : InputInv log h)
    (hfresh : stream ∉ AfkCli.accepted log) (hphase : h.phase = .idle) :
    InputInv (⟨.socket (.accept listener), .ok stream⟩ :: log)
      { h with phase := .accepted stream } := by
  have hunknown : ∀ fd, fd ∉ AfkCli.accepted log →
      received fd (⟨.socket (.accept listener), .ok stream⟩ :: log) = [] ∧
        contributed fd (⟨.socket (.accept listener), .ok stream⟩ :: log) = [] := by
    intro fd hfd
    rw [received_cons rfl, contributed_cons rfl]
    exact hinv.unknown fd hfd
  have hstreams : Hub.streams { h with phase := .accepted stream } = stream :: h.streams := by
    simp only [Hub.streams, Phase.streams, hphase, List.nil_append, List.cons_append]
  refine ⟨?_, ?_, ?_, ?_, hunknown stream hfresh, ?_, ?_, ?_⟩
  · intro fd hfd
    rw [hstreams] at hfd
    rcases List.mem_cons.mp hfd with rfl | hfd
    · exact List.mem_cons_self
    · exact List.mem_cons_of_mem _ (hinv.accepted fd hfd)
  · rw [hstreams]
    exact List.nodup_cons.mpr ⟨fun hmem => hfresh (hinv.accepted stream hmem), hinv.nodup⟩
  · intro c hc
    obtain ⟨applied, happlied, hfed⟩ := hinv.active c hc
    exact ⟨applied, happlied, hfed.cons rfl rfl⟩
  · intro c hc
    exact (hinv.candidate c hc).cons rfl rfl
  · intro fd
    exact (hinv.provenance fd).cons rfl
  · intro fd hfd
    exact hunknown fd fun hmem => hfd (List.mem_cons_of_mem _ hmem)
  · rw [ptyWritten, typed]
    exact (congrArg (· ++ h.ptyInput.bytes) (List.append_nil _)).trans
      (hinv.queue.trans (List.append_nil _).symm)

/-- A record is applied that is not input. -/
theorem applyQuiet {log : RunnerLog} {h : Hub} {e : RunnerEvent} {phase : Phase}
    (hinv : InputInv log h) (he : NoInput e) (hwritten : writtenBy e = [])
    (hstreams : phase.streams = h.phase.streams) (hphase : phase.Fed log) :
    InputInv (e :: log) { h with phase } := by
  refine hinv.quiet he ?_ ?_ (fun c hc => ⟨c, hc, rfl, rfl⟩) (fun c hc => hc) hphase
  · rw [hwritten, List.nil_append]
  · simp only [Hub.streams, hstreams]
    exact .refl _

/-- What was about to be applied is lost. -/
theorem applyIdle {log : RunnerLog} {h : Hub} {e : RunnerEvent} (hinv : InputInv log h)
    (he : NoInput e) (hwritten : writtenBy e = []) : InputInv (e :: log) { h with phase := .idle } := by
  refine hinv.quiet he ?_ ?_ (fun c hc => ⟨c, hc, rfl, rfl⟩) (fun c hc => hc) trivial
  · rw [hwritten, List.nil_append]
  · exact (((List.nil_sublist _).append_right _).append_right _).subperm

theorem input {log : RunnerLog} {h : Hub} {joining : Bool} {c : Connection} {bytes : Bytes}
    {rest : List Record} (hinv : InputInv log h)
    (hphase : h.phase = .applying joining c (.input bytes :: rest))
    (hfits : (h.ptyInput.push bytes).2 = true) :
    InputInv (⟨.note (.inputAccepted c.stream bytes), ()⟩ :: log)
      { h with ptyInput := (h.ptyInput.push bytes).1, phase := .applying joining c rest } := by
  have hstreams : Hub.streams
      { h with ptyInput := (h.ptyInput.push bytes).1, phase := .applying joining c rest } =
        h.streams := by
    simp only [Hub.streams, hphase, Phase.streams]
  have hself : contributedBy c.stream ⟨.note (.inputAccepted c.stream bytes), ()⟩ = bytes :=
    if_pos rfl
  have hother : ∀ fd, c.stream ≠ fd →
      contributedBy fd ⟨.note (.inputAccepted c.stream bytes), ()⟩ = [] := fun fd hne => if_neg hne
  have hmem : c.stream ∈ h.streams := by simp [Hub.streams, hphase, Phase.streams]
  have hfirst := hinv.nodup
  simp only [Hub.streams, hphase, Phase.streams, List.cons_append, List.nodup_cons,
    List.mem_append, not_or] at hfirst
  obtain ⟨⟨⟨-, hactive⟩, hcandidate⟩, -⟩ := hfirst
  have hfed := hinv.phase
  rw [hphase] at hfed
  obtain ⟨applied, happlied, hfed⟩ := hfed
  -- what the connection has contributed grows by this record
  have hcontributed : AfkCli.contributed c.stream
      (⟨.note (.inputAccepted c.stream bytes), ()⟩ :: log) = inputs (applied ++ [.input bytes]) := by
    rw [AfkCli.contributed, hself, hfed.contributed, inputs_append, inputs_singleton]
    rfl
  have hdrained : ipcFormat.drain
      (received c.stream (⟨.note (.inputAccepted c.stream bytes), ()⟩ :: log)) =
        ((applied ++ [.input bytes]) ++ rest, .ok c.decoder.buffer) := by
    rw [received_cons rfl, hfed.stream, List.append_assoc, List.singleton_append]
  have hattached : Attached (applied ++ [.input bytes]) := happlied.append trivial
  refine ⟨?_, ?_, ?_, ?_, ⟨_, hattached, hdrained, hcontributed⟩, ?_, ?_, ?_⟩
  · intro fd hfd
    rw [hstreams] at hfd
    exact hinv.accepted fd hfd
  · rw [hstreams]
    exact hinv.nodup
  · intro c' hc'
    obtain ⟨applied', happlied', hfed'⟩ := hinv.active c' hc'
    refine ⟨applied', happlied', hfed'.cons rfl (hother _ ?_)⟩
    intro heq
    exact hactive (by simp [show h.active = some c' from hc', heq])
  · intro c' hc'
    refine (hinv.candidate c' hc').cons rfl (hother _ ?_)
    intro heq
    exact hcandidate (by simp [show h.candidate = some c' from hc', heq])
  · intro fd
    by_cases hfd : c.stream = fd
    · subst hfd
      refine ⟨applied ++ [.input bytes], ?_, hcontributed, .inr hattached⟩
      rw [hdrained]
      exact List.prefix_append _ _
    · exact (hinv.provenance fd).cons (hother fd hfd)
  · intro fd hfd
    have hne : c.stream ≠ fd := by
      rintro rfl
      exact hfd (hinv.accepted _ hmem)
    rw [received_cons rfl, contributed_cons (hother fd hne)]
    exact hinv.unknown fd hfd
  · show (ptyWritten log ++ []) ++ (h.ptyInput.push bytes).1.bytes = typed log ++ bytes
    rw [List.append_nil, ByteQueue.push_true hfits, ← List.append_assoc, hinv.queue]

theorem writePty {log : RunnerLog} {h : Hub} (hinv : InputInv log h) (r : Except IoError Nat) :
    InputInv (⟨.process (.writePty h.ptyInput.bytes), r⟩ :: log) (h.writePty r) := by
  have he : NoInput ⟨.process (.writePty h.ptyInput.bytes), r⟩ :=
    ⟨fun _ => rfl, fun _ => rfl, rfl, rfl⟩
  unfold Hub.writePty
  cases hr : h.ptyInput.afterWrite r with
  | none =>
    refine hinv.quiet he ?_ ?_ nofun (fun c hc => hc) hinv.phase
    · rcases r with error | (_ | n)
      · rfl
      · rfl
      · cases hr
    · exact (((List.nil_sublist _).append_left _).append_right _).subperm
  | some queue =>
    refine hinv.quiet he ?_ (.refl _) (fun c hc => ⟨c, hc, rfl, rfl⟩) (fun c hc => hc) hinv.phase
    rcases r with error | (_ | n)
    · simp only [ByteQueue.afterWrite] at hr
      split at hr
      · rw [← Option.some.inj hr]
        rfl
      · cases hr
    · cases hr
    · rw [← Option.some.inj hr]
      exact List.take_append_drop _ _

/-- The connection that the hub was applying records of becomes the active attachment. -/
theorem settle {log : RunnerLog} {h : Hub} {joining : Bool} {c : Connection} {leaving : Option Fd}
    (hinv : InputInv log h) (hphase : h.phase = .applying joining c []) :
    InputInv log { h with active := some c, phase := .idle, leaving } := by
  have hfed := hinv.phase
  rw [hphase] at hfed
  have hstreams : (Hub.streams { h with active := some c, phase := .idle, leaving }).Sublist
      h.streams := by
    simp only [Hub.streams, Phase.streams, hphase]
    exact (List.sublist_append_left _ _).append_right _
  refine ⟨fun fd hfd => hinv.accepted fd (hstreams.subset hfd), hstreams.nodup hinv.nodup, ?_,
    hinv.candidate, trivial, hinv.provenance, hinv.unknown, hinv.queue⟩
  rintro _ ⟨⟩
  exact hfed

/-- One event. -/
theorem on {log : RunnerLog} {h h' : Hub} {e : RunnerEvent} (hinv : InputInv log h)
    (hnodup : (AfkCli.accepted (e :: log)).Nodup) (hon : h.On e h') : InputInv (e :: log) h' := by
  cases hon with
  | quiet hop =>
    obtain ⟨he, hwritten⟩ := noInput_of_quiet hop _
    exact hinv.same he hwritten
  | trace hop =>
    obtain ⟨he, hwritten⟩ := noInput_of_traces hop _
    exact hinv.same he hwritten
  | readPty => exact hinv.extend ⟨fun _ => rfl, fun _ => rfl, rfl, rfl⟩ rfl _
  | ptyEof | ptyError | acceptError | wait | close =>
    exact hinv.same ⟨fun _ => rfl, fun _ => rfl, rfl, rfl⟩ rfl
  | writePty => exact hinv.writePty _
  | writeActive _ _ hactive =>
    exact hinv.writeActive ⟨fun _ => rfl, fun _ => rfl, rfl, rfl⟩ rfl hactive _
  | readActive _ hphase hactive => exact hinv.readActive hphase hactive _
  | readCandidate _ hphase hcandidate => exact hinv.readCandidate hphase hcandidate _
  | accept _ hphase =>
    exact hinv.accept (List.nodup_cons.mp hnodup).1 hphase
  | windowError => exact hinv.applyIdle ⟨fun _ => rfl, fun _ => rfl, rfl, rfl⟩ rfl
  | @attach c c' rows columns rest _ hphase hreplay =>
    have hsame := enqueueReplay_same hreplay
    have hfed := hinv.phase
    rw [hphase] at hfed
    refine hinv.applyQuiet ⟨fun _ => rfl, fun _ => rfl, rfl, rfl⟩ rfl ?_ ?_
    · rw [hphase]
      exact congrArg (fun stream => [stream]) hsame.stream
    · refine ⟨[.attach rows columns], ⟨rows, columns, [], rfl, nofun⟩, ?_, ?_⟩
      · rw [hsame.stream, hsame.decoder]
        exact hfed.stream
      · rw [hsame.stream]
        exact hfed.contributed
  | @resize joining c rows columns rest _ hphase =>
    have hfed := hinv.phase
    rw [hphase] at hfed
    obtain ⟨applied, happlied, hfed⟩ := hfed
    refine hinv.applyQuiet ⟨fun _ => rfl, fun _ => rfl, rfl, rfl⟩ rfl ?_ ?_
    · rw [hphase]
      rfl
    · have hadmissible : (Record.resize rows columns).Admissible := trivial
      refine ⟨applied ++ [.resize rows columns], happlied.append hadmissible, ?_, ?_⟩
      · rw [hfed.stream, List.append_assoc, List.singleton_append]
      · rw [hfed.contributed, inputs_append, inputs_singleton]
        exact (List.append_nil _).symm
  | input _ hphase hfits => exact hinv.input hphase hfits
  | @activate c _ hphase =>
    exact (hinv.settle hphase).same ⟨fun _ => rfl, fun _ => rfl, rfl, rfl⟩ rfl
  | @stop stream _ hphase =>
    have hfed := hinv.phase
    rw [hphase] at hfed
    refine hinv.applyQuiet ⟨fun _ => rfl, fun _ => rfl, rfl, rfl⟩ rfl ?_ hfed
    rw [hphase]
    rfl
  | exit _ hphase =>
    refine hinv.applyQuiet ⟨fun _ => rfl, fun _ => rfl, rfl, rfl⟩ rfl ?_ trivial
    rw [hphase]
    rfl
  | closeLeaving =>
    refine hinv.quiet ⟨fun _ => rfl, fun _ => rfl, rfl, rfl⟩ rfl (.refl _)
      (fun c hc => ⟨c, hc, rfl, rfl⟩) (fun c hc => hc) hinv.phase

/-- What the hub does between events. -/
theorem silent {log : RunnerLog} {h h' : Hub} (hinv : InputInv log h) (hsilent : h.Silent h') :
    InputInv log h' := by
  have hleave : ∀ (phase : Phase) (leaving : Option Fd), phase.streams = [] → phase.Fed log →
      InputInv log { h with phase, leaving } := by
    intro phase leaving hempty hfed
    have hstreams : (Hub.streams { h with phase, leaving }).Sublist h.streams := by
      simp only [Hub.streams, hempty]
      exact ((List.nil_sublist _).append_right _).append_right _
    exact ⟨fun fd hfd => hinv.accepted fd (hstreams.subset hfd), hstreams.nodup hinv.nodup,
      hinv.active, hinv.candidate, hfed, hinv.provenance, hinv.unknown, hinv.queue⟩
  have hphased := hinv.phase
  cases hsilent with
  | @seat stream hphase =>
    rw [hphase] at hphased
    have hstreams : List.Subperm
        (Hub.streams
          { h with
            candidate := some (.new stream)
            phase := .idle
            leaving := h.candidate.map (·.stream) }) h.streams := by
      simp only [Hub.streams, Phase.streams, hphase, List.nil_append]
      exact List.perm_append_comm.subperm.trans (List.sublist_append_left _ _).subperm
    obtain ⟨streams, hperm, hsub⟩ := hstreams
    refine ⟨fun fd hfd => hinv.accepted fd (hsub.subset (hperm.mem_iff.mpr hfd)),
      hperm.nodup_iff.mp (hsub.nodup hinv.nodup), hinv.active, ?_, trivial, hinv.provenance,
      hinv.unknown, hinv.queue⟩
    rintro _ ⟨⟩
    refine ⟨?_, hphased.2⟩
    rw [show (Connection.new stream).stream = stream from rfl, hphased.1]
    exact Format.drain_more rfl
  | turnAway | dismiss | refuse => exact hleave _ _ rfl trivial
  | @stop c hphase =>
    rw [hphase] at hphased
    exact hleave _ _ rfl ⟨c.decoder.buffer, hphased.stream⟩
  | applied hphase => exact hinv.settle hphase
  | @finish c exit encoded _ _ hactive =>
    have hstreams : (Hub.streams
        { h with
          active := some { c with output := (c.output.push encoded).1 }
          phase := .finished }).Sublist h.streams := by
      simp only [Hub.streams, Phase.streams, hactive, Option.map_some, List.nil_append]
      exact (List.sublist_append_right _ _).append_right _
    refine ⟨fun fd hfd => hinv.accepted fd (hstreams.subset hfd), hstreams.nodup hinv.nodup, ?_,
      hinv.candidate, trivial, hinv.provenance, hinv.unknown, hinv.queue⟩
    rintro _ ⟨⟩
    obtain ⟨applied, happlied, hfed⟩ := hinv.active c hactive
    exact ⟨applied, happlied, hfed.stream, hfed.contributed⟩

end InputInv

theorem nodup_of_cons {e : RunnerEvent} {log : RunnerLog} (h : (accepted (e :: log)).Nodup) :
    (accepted log).Nodup :=
  (List.nodup_append.mp h).2.1

/-- **The input of a hub**: each connection contributes only what its own stream asks for after an
`Attach`, and the terminal is written what was accepted, in order. -/
theorem Serves.input {log : RunnerLog} {h : Hub} (hserves : Serves log h)
    (hnodup : (accepted log).Nodup) : InputInv log h := by
  induction hserves with
  | start =>
    refine ⟨nofun, List.nodup_nil, nofun, nofun, trivial, ?_, fun _ _ => ⟨rfl, rfl⟩, rfl⟩
    exact fun fd => ⟨[], List.nil_prefix, rfl, .inl rfl⟩
  | event _ hon ih => exact (ih (nodup_of_cons hnodup)).on hnodup hon
  | silent _ _ hsilent ih => exact (ih hnodup).silent hsilent

/-! ## Activations -/

/-- The streams of a phase's connections that were not activated. -/
def Phase.joining : Phase → List Fd
  | accepted stream => [stream]
  | greeting connection _ | applying true connection _ => [connection.stream]
  | _ => []

/-- The streams of the connections that a hub has not activated. -/
def Hub.joining (h : Hub) : List Fd :=
  h.phase.joining ++ (h.candidate.map (·.stream)).toList

/-- The second hub holds connections of the first one, and activates none of them. -/
structure Hub.Narrows (h h' : Hub) : Prop where
  streams : h'.streams ⊆ h.streams
  joining : h'.joining ⊆ h.joining

theorem Phase.joining_subset (phase : Phase) : phase.joining ⊆ phase.streams := by
  rcases phase with _ | _ | _ | ⟨_ | _⟩ | _ | _ | _ | _ <;> simp [Phase.joining, Phase.streams]

theorem Hub.joining_subset (h : Hub) : h.joining ⊆ h.streams := by
  intro fd hfd
  rcases List.mem_append.mp hfd with hfd | hfd
  · exact List.mem_append_left _ (List.mem_append_left _ (h.phase.joining_subset hfd))
  · exact List.mem_append_right _ hfd

namespace Hub.Narrows

variable {h h' : Hub} {c : Connection}

theorem refl (h : Hub) : h.Narrows h := ⟨List.Subset.refl _, List.Subset.refl _⟩

/-- The attachment is dropped, or only its queue changes. -/
theorem active {active : Option Connection} {tail : OutputTail} {ptyInput : ByteQueue}
    {leaving : Option Fd} (hactive : active.map (·.stream) = none ∨
      active.map (·.stream) = h.active.map (·.stream)) :
    h.Narrows { h with tail, ptyInput, active, leaving } := by
  refine ⟨?_, List.Subset.refl _⟩
  simp only [Hub.streams]
  rcases hactive with hactive | hactive
  · rw [hactive]
    exact (((List.nil_sublist _).append_left _).append_right _).subset
  · rw [hactive]
    exact List.Subset.refl _

theorem extend (h : Hub) (bytes : Bytes) : h.Narrows (h.extend bytes) := by
  unfold Hub.extend
  dsimp only
  split
  · exact active (.inr rfl)
  · rename_i c hactive
    cases hqueue : enqueueOutput c bytes with
    | error error => exact active (.inl rfl)
    | ok queued =>
      refine active (.inr ?_)
      rw [hactive, Option.map_some, Option.map_some, (enqueueOutput_ok hqueue).1.stream]

theorem writeActive (hactive : h.active = some c) (r : Except IoError Nat) :
    h.Narrows (h.writeActive c r) := by
  unfold Hub.writeActive
  cases c.output.afterWrite r with
  | none => exact active (.inl rfl)
  | some output =>
    refine active (.inr ?_)
    rw [hactive, Option.map_some, Option.map_some]

theorem writePty (r : Except IoError Nat) : h.Narrows (h.writePty r) := by
  unfold Hub.writePty
  cases h.ptyInput.afterWrite r with
  | none => exact active (.inl rfl)
  | some queue => exact active (.inr rfl)

theorem readActive (hphase : h.phase = .idle) (hactive : h.active = some c)
    (r : Except IoError Bytes) : h.Narrows (h.readActive c r) := by
  unfold Hub.readActive
  cases hr : c.receive r with
  | blocked => exact refl h
  | failed => exact active (.inl rfl)
  | records c' records =>
    have hstream := (receive_records hr).1
    constructor <;>
      simp [Hub.streams, Hub.joining, Phase.streams, Phase.joining, hphase, hactive, hstream]

theorem readCandidate (hphase : h.phase = .idle) (hcandidate : h.candidate = some c)
    (r : Except IoError Bytes) : h.Narrows (h.readCandidate c r) := by
  unfold Hub.readCandidate
  cases hr : c.receive r with
  | blocked => exact refl h
  | failed =>
    constructor <;> simp [Hub.streams, Hub.joining, hcandidate]
  | records c' records =>
    have hstream := (receive_records hr).1
    cases records <;> constructor <;>
      simp [Hub.streams, Hub.joining, Phase.streams, Phase.joining, hphase, hcandidate, hstream]

theorem silent (hsilent : h.Silent h') : h.Narrows h' := by
  cases hsilent with
  | seat hphase =>
    constructor <;>
      simp [Hub.streams, Hub.joining, Phase.streams, Phase.joining, hphase, Connection.new]
  | turnAway hphase | dismiss hphase | stop hphase | refuse hphase | applied hphase =>
    constructor <;>
      simp [Hub.streams, Hub.joining, Phase.streams, Phase.joining, hphase]
  | finish _ _ hactive =>
    constructor <;>
      simp [Hub.streams, Hub.joining, Phase.streams, Phase.joining, hactive]

end Hub.Narrows

/-- Events add no connections to a hub, but those they accept. -/
theorem Hub.On.holds {h h' : Hub} {e : RunnerEvent} (hon : h.On e h') :
    (∀ fd ∈ h'.streams, fd ∈ h.streams ∨ fd ∈ acceptedBy e) ∧
      ∀ fd ∈ h'.joining, fd ∈ h.joining ∨ fd ∈ acceptedBy e := by
  have hnarrows : h.Narrows h' → (∀ fd ∈ h'.streams, fd ∈ h.streams ∨ fd ∈ acceptedBy e) ∧
      ∀ fd ∈ h'.joining, fd ∈ h.joining ∨ fd ∈ acceptedBy e := fun hn =>
    ⟨fun fd hfd => .inl (hn.streams hfd), fun fd hfd => .inl (hn.joining hfd)⟩
  cases hon with
  | quiet | trace | ptyEof | ptyError | acceptError | wait | close =>
    exact hnarrows (.refl h)
  | closeLeaving => exact hnarrows ⟨List.Subset.refl _, List.Subset.refl _⟩
  | readPty => exact hnarrows (.extend h _)
  | writePty => exact hnarrows (.writePty _)
  | writeActive _ _ hactive => exact hnarrows (.writeActive hactive _)
  | readActive _ hphase hactive => exact hnarrows (.readActive hphase hactive _)
  | readCandidate _ hphase hcandidate => exact hnarrows (.readCandidate hphase hcandidate _)
  | @accept listener stream _ hphase =>
    have hstreams : Hub.streams { h with phase := .accepted stream } = stream :: h.streams := by
      simp [Hub.streams, Phase.streams, hphase]
    have hjoining : Hub.joining { h with phase := .accepted stream } = stream :: h.joining := by
      simp [Hub.joining, Phase.joining, hphase]
    rw [hstreams, hjoining]
    have hcons : ∀ {streams : List Fd}, ∀ fd ∈ stream :: streams, fd ∈ streams ∨ fd ∈ [stream] :=
      fun fd hfd => (List.mem_cons.mp hfd).symm.imp id List.mem_singleton.mpr
    exact ⟨hcons, hcons⟩
  | windowError =>
    exact hnarrows ⟨by simp [Hub.streams, Phase.streams], by simp [Hub.joining, Phase.joining]⟩
  | @attach c c' _ _ _ _ hphase hreplay =>
    have hstream := (enqueueReplay_same hreplay).stream
    exact hnarrows (by
      constructor <;>
        simp [Hub.streams, Hub.joining, Phase.streams, Phase.joining, hphase, hstream])
  | @resize joining _ _ _ _ _ hphase =>
    exact hnarrows (by
      cases joining <;> constructor <;>
        simp [Hub.streams, Hub.joining, Phase.streams, Phase.joining, hphase])
  | @input joining _ _ _ _ hphase =>
    exact hnarrows (by
      cases joining <;> constructor <;>
        simp [Hub.streams, Hub.joining, Phase.streams, Phase.joining, hphase])
  | activate _ hphase | stop _ hphase | exit _ hphase =>
    exact hnarrows (by
      constructor <;>
        simp [Hub.streams, Hub.joining, Phase.streams, Phase.joining, hphase])

/-- The connection an event activates was not active before, and its predecessor is gone. -/
theorem Hub.On.activates {h h' : Hub} {e : RunnerEvent} {fd : Fd} (hon : h.On e h')
    (he : Activates fd e) (hnodup : h.streams.Nodup) :
    fd ∈ h.joining ∧ fd ∉ h'.joining ∧ ∀ other ∈ h'.streams, other = fd ∨ other ∈ h.joining := by
  cases hon with
  | @activate c _ hphase =>
    have hfd : c.stream = fd := Note.activated.inj (Call.note.inj he)
    subst hfd
    simp only [Hub.streams, hphase, Phase.streams, List.cons_append, List.nodup_cons,
      List.mem_append, not_or] at hnodup
    obtain ⟨⟨-, hcandidate⟩, -⟩ := hnodup
    refine ⟨?_, hcandidate, ?_⟩
    · simp [Hub.joining, hphase, Phase.joining]
    · simp [Hub.streams, Hub.joining, Phase.streams, Phase.joining, hphase]
  | quiet hop | trace hop =>
    cases he
    exact hop.elim
  | _ => cases he

/-- What the log says of the connections that were activated. -/
structure RolesInv (log : RunnerLog) (h : Hub) : Prop where
  activated : ∀ fd, (∃ e ∈ log, Activates fd e) → fd ∈ AfkCli.accepted log ∧ fd ∉ h.joining
  superseded : ∀ fd, Superseded fd log → fd ∉ h.streams

theorem activated_of_superseded {fd : Fd} {log : RunnerLog} (h : Superseded fd log) :
    ∃ e ∈ log, Activates fd e := by
  induction log with
  | nil => exact h.elim
  | cons e log ih =>
    obtain ⟨e', he', hactivates⟩ : ∃ e' ∈ log, Activates fd e' := by
      rcases h with h | h
      · exact ih h
      · exact h.2
    exact ⟨e', List.mem_cons_of_mem _ he', hactivates⟩

namespace RolesInv

variable {log : RunnerLog} {h h' : Hub} {e : RunnerEvent}

theorem on (hinv : RolesInv log h) (hinput : InputInv log h)
    (hnodup : (AfkCli.accepted (e :: log)).Nodup) (hon : h.On e h') : RolesInv (e :: log) h' := by
  -- a connection that was accepted before is not accepted now
  have hnew : ∀ fd ∈ AfkCli.accepted log, fd ∉ acceptedBy e := fun fd hfd hmem =>
    (List.nodup_append.mp hnodup).2.2 fd hmem fd hfd rfl
  have hmono : ∀ fd ∈ AfkCli.accepted log, fd ∈ AfkCli.accepted (e :: log) :=
    fun fd hfd => List.mem_append_right _ hfd
  constructor
  · rintro fd ⟨e', he', hactivates⟩
    rcases List.mem_cons.mp he' with rfl | he'
    · obtain ⟨hjoining, hleft, -⟩ := hon.activates hactivates hinput.nodup
      exact ⟨hmono fd (hinput.accepted fd (h.joining_subset hjoining)), hleft⟩
    · obtain ⟨haccepted, hleft⟩ := hinv.activated fd ⟨e', he', hactivates⟩
      refine ⟨hmono fd haccepted, fun hmem => ?_⟩
      exact (hon.holds.2 fd hmem).elim hleft (hnew fd haccepted)
  · rintro fd (hsuperseded | ⟨⟨other, hne, hother⟩, hactivated⟩) hmem
    · have haccepted := (hinv.activated fd (activated_of_superseded hsuperseded)).1
      exact (hon.holds.1 fd hmem).elim (hinv.superseded fd hsuperseded) (hnew fd haccepted)
    · obtain ⟨-, -, hkept⟩ := hon.activates hother hinput.nodup
      rcases hkept fd hmem with rfl | hjoining
      · exact hne rfl
      · exact (hinv.activated fd hactivated).2 hjoining

theorem silent (hinv : RolesInv log h) (hsilent : h.Silent h') : RolesInv log h' := by
  have hnarrows := Hub.Narrows.silent hsilent
  constructor
  · intro fd hactivated
    obtain ⟨haccepted, hleft⟩ := hinv.activated fd hactivated
    exact ⟨haccepted, fun hmem => hleft (hnarrows.joining hmem)⟩
  · exact fun fd hsuperseded hmem => hinv.superseded fd hsuperseded (hnarrows.streams hmem)

end RolesInv

theorem Serves.roles {log : RunnerLog} {h : Hub} (hserves : Serves log h)
    (hnodup : (accepted log).Nodup) : RolesInv log h := by
  induction hserves with
  | start => exact ⟨fun _ ⟨_, he, _⟩ => (nomatch he), fun _ h => h.elim⟩
  | event hserves hon ih =>
    have hbefore := nodup_of_cons hnodup
    exact (ih hbefore).on (hserves.input hbefore) hnodup hon
  | silent _ _ hsilent ih => exact (ih hnodup).silent hsilent

/-! ## The terminal's input -/

/-- What a hub does last was an event. -/
theorem Serves.of_cons {e : RunnerEvent} {log : RunnerLog} {h : Hub} (hserves : Serves (e :: log) h) :
    ∃ h₀ h₁, Serves log h₀ ∧ h₀.On e h₁ := by
  generalize hlog : e :: log = log' at hserves
  induction hserves with
  | start => cases hlog
  | event hserves hon =>
    cases hlog
    exact ⟨_, _, hserves, hon⟩
  | silent _ _ _ ih => exact ih hlog

/-- Only connections that a hub holds contribute. -/
theorem Hub.On.contributed {h h' : Hub} {e : RunnerEvent} {fd : Fd} (hon : h.On e h')
    (hfd : fd ∉ h.streams) : contributedBy fd e = [] := by
  cases hon with
  | @input _ c _ _ _ hphase =>
    refine if_neg ?_
    rintro rfl
    exact hfd (by simp [Hub.streams, Phase.streams, hphase])
  | quiet hop => exact (noInput_of_quiet hop _).1.contributed fd
  | trace hop => exact (noInput_of_traces hop _).1.contributed fd
  | _ => rfl

/-- A connection that was active before another one contributes nothing any more. -/
theorem Serves.contributed_superseded {after before : RunnerLog} {h : Hub} {fd : Fd}
    (hserves : Serves (after ++ before) h) (hnodup : (accepted (after ++ before)).Nodup)
    (hsuperseded : Superseded fd before) :
    contributed fd (after ++ before) = contributed fd before := by
  induction after generalizing h with
  | nil => rfl
  | cons e after ih =>
    obtain ⟨h₀, h₁, hserves₀, hon⟩ := hserves.of_cons
    have hnodup₀ := nodup_of_cons hnodup
    have hgone : fd ∉ h₀.streams := by
      refine (hserves₀.roles hnodup₀).superseded fd ?_
      clear ih hserves hnodup hserves₀ hon hnodup₀
      induction after with
      | nil => exact hsuperseded
      | cons e after ih => exact .inl ih
    rw [List.cons_append, contributed_cons (hon.contributed hgone)]
    exact ih hserves₀ hnodup₀

/-- What begins with a record goes on beginning with it. -/
theorem head_drain_append {b c : Bytes} {record : Record}
    (h : (ipcFormat.drain b).1.head? = some record) :
    (ipcFormat.drain (b ++ c)).1.head? = some record := by
  obtain ⟨more, hmore⟩ := drain_extends b c
  rw [← hmore, List.head?_append, h]
  rfl

/-- A session is stopped by a connection that sends nothing but a `Stop`. -/
theorem Serves.stop_requested {log : RunnerLog} {h : Hub} {fd : Fd} (hserves : Serves log h)
    (hnodup : (accepted log).Nodup) (hstop : ∃ e ∈ log, e.op = .note (.stopRequested fd)) :
    (ipcFormat.drain (received fd log)).1.head? = some .stop := by
  induction log generalizing h with
  | nil =>
    obtain ⟨e, he, -⟩ := hstop
    cases he
  | cons e log ih =>
    obtain ⟨h₀, h₁, hserves₀, hon⟩ := hserves.of_cons
    have hnodup₀ := nodup_of_cons hnodup
    rw [received]
    apply head_drain_append
    obtain ⟨e', he', hop⟩ := hstop
    rcases List.mem_cons.mp he' with rfl | he'
    · cases hon with
      | stop _ hphase =>
        cases hop
        have hfed := (hserves₀.input hnodup₀).phase
        rw [hphase] at hfed
        obtain ⟨rest, hrest⟩ := hfed
        rw [hrest]
        rfl
      | quiet hquiet | trace hquiet =>
        cases hop
        exact hquiet.elim
      | _ => cases hop
    · exact ih hserves₀ hnodup₀ ⟨e', he', hop⟩

/-- Runs of the runner are served. -/
theorem serves_of_runs {ctx : RunnerContext} {trace : Option Trace} {log : RunnerLog}
    {p : Prog (Except IoError Unit)} (hrun : Runs connections (ctx.serve trace).run log p) :
    ∃ h, Serves log h :=
  (log_sound ⟨_, .start⟩ (wp_serve ctx trace) (hrun.mono fun _ _ _ _ => trivial)).1

/-- Where the event loop leads when it returns. -/
theorem eventLoop_ends {ctx : RunnerContext} {trace : Option Trace} {log : RunnerLog} {turn : Turn}
    (hrun : Runs connections (ctx.eventLoop ctx.self.rounds (.start trace)).run log
      (.ret (.ok turn))) : TurnEnds False turn log := by
  have hat : At False [] ((LoopState.start trace).hub .idle) := ⟨.start, False.elim⟩
  have hends := (log_sound ⟨_, .start⟩ (wp_eventLoop ctx hat)
    (hrun.mono fun _ _ _ _ => trivial)).2 _ rfl
  exact hends.1

/-- **Provenance and order of terminal input.** Along every run of the runner, whatever its
connections send and however it is cut: a connection contributes a prefix of its input records
after a leading `Attach`, and nothing without one; a connection that was active before another one
contributes nothing more; the terminal is written a prefix of what was accepted, in its order. The
run is stopped only by a connection whose first record is a `Stop`. -/
theorem terminal_input (ctx : RunnerContext) (trace : Option Trace) {log : RunnerLog}
    {p : Prog (Except IoError Unit)} (hrun : Runs connections (ctx.serve trace).run log p) :
    (∀ fd, Provenance fd log) ∧
      (∀ fd, (∀ rows columns,
        (ipcFormat.drain (received fd log)).1.head? ≠ some (.attach rows columns)) →
          contributed fd log = []) ∧
      (∀ fd after before, log = after ++ before → Superseded fd before →
        contributed fd log = contributed fd before) ∧
      ptyWritten log <+: typed log ∧
      (∀ fd, (∃ e ∈ log, e.op = .note (.stopRequested fd)) →
        (ipcFormat.drain (received fd log)).1.head? = some .stop) ∧
      ∀ log' st, Runs connections (ctx.eventLoop ctx.self.rounds (.start trace)).run log'
        (.ret (.ok (.stopRequested st))) →
          ∃ fd rest, ipcFormat.drain (received fd log') = ([.stop], .ok rest) := by
  obtain ⟨h, hserves⟩ := serves_of_runs hrun
  have hnodup := nodup_of_allowed hrun.allowed
  have hinput := hserves.input hnodup
  refine ⟨hinput.provenance, ?_, ?_, ?_, fun fd => hserves.stop_requested hnodup, ?_⟩
  · intro fd hfirst
    obtain ⟨applied, ⟨more, hmore⟩, hcontributed, rfl | hattached⟩ := hinput.provenance fd
    · exact hcontributed
    · obtain ⟨rows, columns, rest, rfl, -⟩ := hattached
      exact absurd (by rw [← hmore]; rfl) (hfirst rows columns)
  · rintro fd after before rfl hsuperseded
    exact hserves.contributed_superseded hnodup hsuperseded
  · exact ⟨_, hinput.queue⟩
  · intro log' st hrun'
    obtain ⟨stream, hat⟩ := eventLoop_ends hrun'
    obtain ⟨rest, hrest⟩ := (hat.serves.input (nodup_of_allowed hrun'.allowed)).phase
    exact ⟨stream, rest, hrest⟩

/-- A connection attaches and types. -/
def typingScene : Scene where
  accepts := [.ok 5]
  reads := [.ok (writeRecord (.attach 24 80) ++ writeRecord (.input (ascii "ls")))]
  polls := [Scene.atListener, Scene.atCandidate, Scene.atPty]

theorem terminal_input_typing : ∃ log p, Runs connections (exampleContext.serve none).run log p ∧
    typed log = ascii "ls" ∧ ptyWritten log = ascii "ls" ∧ ∀ fd, Provenance fd log := by
  have hrun := runs_play (A := connections) (o := Scene.answer) (n := 24) (s := typingScene)
    (p := (exampleContext.serve none).run) (by decide +kernel)
  refine ⟨_, _, hrun, by decide +kernel, by decide +kernel, ?_⟩
  exact (terminal_input exampleContext none hrun).1

end AfkCli
