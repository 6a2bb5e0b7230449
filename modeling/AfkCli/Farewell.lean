import AfkCli.Attach
import AfkCli.Fidelity

/-!
# The exit reaches the attachment

A runner that is done sends output, sends its exit and closes the connection. The attachment reads
what was sent however the stream is split, but each turn writes before it reads: a write to the
closed connection ends the attachment before it has read what is waiting.

## Main definitions

* `shown`: what the attachment wrote to its output
* `Obstacle`, `ClosedWrite`: calls that fail, and the ones the attachment takes for a close
* `departed`: an outside that delivers a stream and nothing else

## Main results

* `exit_delivered`: the attachment shows all output and returns the exit unless a call fails
-/

namespace AfkCli

open Interaction Discipline

/-! ## Views -/

/-- What the event wrote to the attachment's output. -/
def shownBy : RunnerEvent → List Bytes
  | ⟨.terminal (.writeOutput bytes), .ok _⟩ => [bytes]
  | _ => []

/-- The writes to the attachment's output, in order. -/
def shown : RunnerLog → List Bytes
  | [] => []
  | e :: log => shown log ++ shownBy e

/-- A call that failed, other than one that is tried again. -/
def Obstacle : RunnerEvent → Prop
  | ⟨.socket (.setNonblocking ..), .error _⟩ => True
  | ⟨.socket (.write ..), .ok n⟩ => n = 0
  | ⟨.socket (.write ..), .error error⟩ => error.kind ≠ .wouldBlock ∧ error.kind ≠ .interrupted
  | ⟨.terminal .enterRaw, .error _⟩ => True
  | ⟨.terminal .registerSignals, .error _⟩ => True
  | ⟨.terminal (.pollStream ..), .error error⟩ => error.kind ≠ .interrupted
  | ⟨.terminal (.writeOutput _), .error _⟩ => True
  | ⟨.terminal .flushOutput, .error _⟩ => True
  | _ => False

/-- A write that failed because the connection is closed. -/
def ClosedWrite : RunnerEvent → Prop
  | ⟨.socket (.write ..), .error error⟩ => attachmentClosed error = true
  | _ => False

instance : DecidablePred Obstacle := by
  intro ⟨op, answer⟩
  unfold Obstacle
  split <;> infer_instance

instance : DecidablePred ClosedWrite := by
  intro ⟨op, answer⟩
  unfold ClosedWrite
  split <;> infer_instance

/-- The event is one of an attachment whose input stays open, that gets no signal to end, and whose
connection delivers the stream `total`. -/
def Delivers (stream : Fd) (total : Bytes) (log : RunnerLog) : RunnerEvent → Prop
  | ⟨.socket (.read fd capacity), .ok bytes⟩ =>
    fd = stream → bytes.length ≤ capacity ∧ received stream log ++ bytes <+: total ∧
      (bytes = [] → received stream log = total)
  | ⟨.socket (.read fd _), .error error⟩ =>
    fd = stream → error.kind = .wouldBlock ∨ error.kind = .interrupted ∨
      received stream log = total
  | ⟨.terminal .hangup, true⟩ | ⟨.terminal .terminate, true⟩ => False
  | ⟨.terminal .tryRecv, .bytes bytes⟩ => bytes.length ≤ ioChunkBytes
  | ⟨.terminal .tryRecv, .closed⟩ | ⟨.terminal .tryRecv, .disconnected⟩
  | ⟨.terminal .tryRecv, .failed _⟩ => False
  | _ => True

instance (stream : Fd) (total : Bytes) (log : RunnerLog) :
    DecidablePred (Delivers stream total log) := fun e => by
  unfold Delivers
  split <;> infer_instance

/-- The runner has sent `total` on the stream, and closed it. -/
def departed (stream : Fd) (total : Bytes) : Answers Call Call.Answer :=
  fun log op r => Delivers stream total log ⟨op, r⟩

instance (stream : Fd) (total : Bytes) (log : RunnerLog) (op : Call) (r : op.Answer) :
    Decidable (departed stream total log op r) :=
  inferInstanceAs (Decidable (Delivers stream total log ⟨op, r⟩))

/-- "attachment queue full" -/
def queueFull : IoError := IoError.new .wouldBlock "attachment queue full"

/-- Output, and the exit. -/
def farewell (payloads : List Bytes) (exit : ProcessExit) : Bytes :=
  (plan payloads (some exit)).flatMap writeRecord

/-! ## What was read and shown -/

/-- The attachment has shown a part of the payloads, is about to show the records, and holds less
than a record. -/
structure Showing (stream : Fd) (payloads : List Bytes) (exit : ProcessExit) (decoder : Decoder)
    (records : List Record) (log : RunnerLog) : Prop where
  received : received stream log =
    outputRecords (shown log) ++ records.flatMap writeRecord ++ decoder.buffer
  drained : ipcFormat.cut decoder.buffer = .more
  planned : ∃ more, payloads = shown log ++ more ∧ records <+: plan more (some exit)

/-- Nothing has failed. -/
def Clear (log : RunnerLog) : Prop := ∀ e ∈ log, ¬ Obstacle e

/-- Nothing but a write to the closed connection has failed. -/
def Hindered (log : RunnerLog) : Prop :=
  (∃ e ∈ log, Obstacle e) ∧ ∀ e ∈ log, Obstacle e → ClosedWrite e

/-- Something else has failed. -/
def Blocked (log : RunnerLog) : Prop := ∃ e ∈ log, Obstacle e ∧ ¬ ClosedWrite e

/-- How the attachment ends. -/
def Parted (stream : Fd) (payloads : List Bytes) (exit : ProcessExit) :
    Except IoError ProcessExit → RunnerLog → Prop
  | .ok status, log =>
    (status = exit ∧ shown log = payloads ∧ Clear log) ∨
      (status = .code 0 ∧ Hindered log ∧ ∃ decoder, Showing stream payloads exit decoder [] log)
  | .error error, log => error = queueFull ∨ Blocked log

section showing

variable {stream : Fd} {payloads : List Bytes} {exit : ProcessExit} {decoder : Decoder}
  {records : List Record} {log : RunnerLog} {e : RunnerEvent}

/-- An event that reads nothing from the connection, shows nothing, and does not fail. -/
structure Neutral (stream : Fd) (e : RunnerEvent) : Prop where
  received : receivedBy stream e = []
  shown : shownBy e = []
  passed : ¬ Obstacle e

theorem Showing.cons (h : Showing stream payloads exit decoder records log)
    (hreceived : receivedBy stream e = []) (hshown : shownBy e = []) :
    Showing stream payloads exit decoder records (e :: log) := by
  have hsame : AfkCli.received stream (e :: log) = AfkCli.received stream log := by
    rw [AfkCli.received, hreceived, List.append_nil]
  have hshown' : AfkCli.shown (e :: log) = AfkCli.shown log := by
    rw [AfkCli.shown, hshown, List.append_nil]
  refine ⟨?_, h.drained, ?_⟩
  · rw [hsame, hshown']
    exact h.received
  · rw [hshown']
    exact h.planned

theorem Clear.cons (h : Clear log) (he : ¬ Obstacle e) : Clear (e :: log) :=
  List.forall_mem_cons.mpr ⟨he, h⟩

theorem Hindered.cons (h : Hindered log) (he : ¬ Obstacle e) : Hindered (e :: log) := by
  obtain ⟨⟨e', he', hobstacle⟩, hclosed⟩ := h
  exact ⟨⟨e', List.mem_cons_of_mem _ he', hobstacle⟩,
    List.forall_mem_cons.mpr ⟨fun h => absurd h he, hclosed⟩⟩

theorem Blocked.cons (h : Blocked log) : Blocked (e :: log) := by
  obtain ⟨e', he', hobstacle⟩ := h
  exact ⟨e', List.mem_cons_of_mem _ he', hobstacle⟩

theorem hindered_of_clear (h : Clear log) (he : Obstacle e) (hclosed : ClosedWrite e) :
    Hindered (e :: log) :=
  ⟨⟨e, List.mem_cons_self, he⟩,
    List.forall_mem_cons.mpr ⟨fun _ => hclosed, fun e' he' hobstacle => absurd hobstacle (h e' he')⟩⟩

/-- How the attachment ends does not change with what it does afterwards. -/
theorem Parted.cons {r : Except IoError ProcessExit} (h : Parted stream payloads exit r log)
    (he : Neutral stream e) : Parted stream payloads exit r (e :: log) := by
  cases r with
  | error error => exact h.imp_right Blocked.cons
  | ok status =>
    rcases h with ⟨hstatus, hshown, hclear⟩ | ⟨hstatus, hhindered, decoder, hshowing⟩
    · refine .inl ⟨hstatus, ?_, hclear.cons he.passed⟩
      rw [AfkCli.shown, he.shown, List.append_nil]
      exact hshown
    · exact .inr ⟨hstatus, hhindered.cons he.passed, decoder,
        hshowing.cons he.received he.shown⟩

/-- What waits in the decoder holds no complete record. -/
theorem Showing.nil_of_prefix (h : Showing stream payloads exit decoder [] log)
    (records : List Record) (hvalid : ∀ record ∈ records, record.Valid)
    (hbuffer : records.flatMap writeRecord <+: decoder.buffer) : records = [] := by
  cases records with
  | nil => rfl
  | cons record records =>
    obtain ⟨rest, hrest⟩ := hbuffer
    have hcut := cut_encode (hvalid record List.mem_cons_self)
      (records.flatMap writeRecord ++ rest)
    rw [← List.append_assoc, ← List.flatMap_cons, hrest, h.drained] at hcut
    cases hcut

theorem valid_plan (hsendable : Sendable payloads) (hexit : (Record.exit exit).Valid) :
    ∀ record ∈ plan payloads (some exit), record.Valid := by
  intro record hrecord
  rcases List.mem_append.mp hrecord with hrecord | hrecord
  · obtain ⟨payload, hpayload, rfl⟩ := List.mem_map.mp hrecord
    exact hsendable payload hpayload
  · simp only [Option.toList_some, List.map_singleton, List.mem_singleton] at hrecord
    rw [hrecord]
    exact hexit

theorem farewell_append (shown more : List Bytes) :
    farewell (shown ++ more) exit = outputRecords shown ++ farewell more exit := by
  simp only [farewell, plan, outputRecords, List.map_append, List.flatMap_append,
    List.append_assoc]

/-- An attachment that has not been told the exit has not read all of the stream. -/
theorem Showing.unfinished (h : Showing stream payloads exit decoder [] log)
    (hsendable : Sendable payloads) (hexit : (Record.exit exit).Valid) :
    AfkCli.received stream log ≠ farewell payloads exit := by
  intro htotal
  obtain ⟨more, hmore, -⟩ := h.planned
  have hbuffer : decoder.buffer = farewell more exit := by
    have hreceived := h.received
    rw [htotal, hmore, farewell_append, List.flatMap_nil, List.append_nil] at hreceived
    exact (List.append_cancel_left hreceived).symm
  have hnil := h.nil_of_prefix (plan more (some exit))
    (valid_plan (fun payload hpayload => hsendable payload (by simp [hmore, hpayload])) hexit)
    (by rw [hbuffer, farewell])
  simp [plan] at hnil

/-- One read of the stream: what it completes is the next part of the farewell. -/
theorem Showing.push {bytes : Bytes} {pushed : Decoder}
    (h : Showing stream payloads exit decoder [] log) (op : Call) (r : op.Answer) (hsendable : Sendable payloads)
    (hexit : (Record.exit exit).Valid)
    (htotal : AfkCli.received stream log ++ bytes <+: farewell payloads exit)
    (hpushed : pushed.buffer = decoder.buffer ++ bytes)
    (hreceived : receivedBy stream ⟨op, r⟩ = bytes) (hshown : shownBy ⟨op, r⟩ = []) :
    ∃ records decoder', pushed.drain = .ok (records, decoder') ∧
      Showing stream payloads exit decoder' records (⟨op, r⟩ :: log) := by
  obtain ⟨more, hmore, -⟩ := h.planned
  have hvalid : ∀ record ∈ plan more (some exit), record.Valid := valid_plan
    (fun payload hpayload => hsendable payload (by simp [hmore, hpayload])) hexit
  have hpart : decoder.buffer ++ bytes <+: farewell more exit := by
    rw [h.received, hmore, farewell_append, List.flatMap_nil, List.append_nil,
      List.append_assoc] at htotal
    exact (List.prefix_append_right_inj _).mp htotal
  obtain ⟨rest, hrest⟩ := hpart
  have hall : ipcFormat.drain (farewell more exit) = (plan more (some exit), .ok []) := by
    have hdrain := Format.drain_flatMap (F := ipcFormat)
      (fun record hrecord => cut_encode (hvalid record hrecord)) []
    rwa [List.append_nil, Format.drain_more cut_nil, List.append_nil] at hdrain
  rw [← hrest] at hall
  obtain ⟨records, left, hdrain, hrecords⟩ := Format.drain_part hall
  have hsuffix : left <:+ decoder.buffer ++ bytes := (Format.drain_rest (by rw [hdrain])).2
  have hlength : left.length ≤ maxIpcRecordBytes := by
    have := hsuffix.length_le
    have := pushed.length_le
    rw [hpushed] at this
    omega
  refine ⟨records, ⟨left, hlength⟩, Decoder.drain_ok.mpr (by rw [hpushed, hdrain]), ?_, ?_, ?_⟩
  · have hencode := (Format.drain_encode (F := ipcFormat) writeRecord_cut
      (decoder.buffer ++ bytes)).2 left (by rw [hdrain])
    rw [hdrain] at hencode
    rw [AfkCli.received, AfkCli.shown, hreceived, hshown, List.append_nil, List.append_assoc,
      hencode, h.received, List.flatMap_nil, List.append_nil, List.append_assoc]
  · exact (Format.drain_rest (by rw [hdrain])).1
  · rw [AfkCli.shown, hshown, List.append_nil]
    exact ⟨more, hmore, hrecords⟩

/-- The next payload is shown. -/
theorem Showing.output {payload : Bytes}
    (h : Showing stream payloads exit decoder (.output payload :: records) log) :
    Showing stream payloads exit decoder records
      (⟨.terminal (.writeOutput payload), .ok ()⟩ :: log) := by
  obtain ⟨more, hmore, hrecords⟩ := h.planned
  obtain ⟨next, rfl⟩ : ∃ next, more = payload :: next := by
    cases more with
    | nil => simp [plan] at hrecords
    | cons next more =>
      simp only [plan, List.map_cons, List.cons_append, List.cons_prefix_cons,
        Record.output.injEq] at hrecords
      exact ⟨more, by rw [hrecords.1]⟩
  refine ⟨?_, h.drained, next, ?_, ?_⟩
  · have hreceived := h.received
    simp only [AfkCli.received, AfkCli.shown, receivedBy, shownBy, List.append_nil,
      outputRecords_append, List.flatMap_cons, List.append_assoc] at hreceived ⊢
    rw [hreceived]
    simp [outputRecords]
  · simpa [AfkCli.shown, shownBy] using hmore
  · simpa [plan] using hrecords

/-- After the exit nothing is left to show. -/
theorem Showing.exit_eq {status : ProcessExit}
    (h : Showing stream payloads exit decoder (.exit status :: records) log) :
    status = exit ∧ AfkCli.shown log = payloads := by
  obtain ⟨more, hmore, hrecords⟩ := h.planned
  cases more with
  | nil =>
    simp only [plan, List.map_nil, List.nil_append, Option.toList_some, List.map_singleton,
      List.cons_prefix_cons, Record.exit.injEq] at hrecords
    exact ⟨hrecords.1, by rw [hmore, List.append_nil]⟩
  | cons next more => simp [plan] at hrecords

/-- Only output and the exit are sent. -/
theorem Showing.head {record : Record}
    (h : Showing stream payloads exit decoder (record :: records) log) :
    (∃ payload, record = .output payload) ∨ ∃ status, record = .exit status := by
  obtain ⟨more, -, hrecords⟩ := h.planned
  cases more with
  | nil =>
    simp only [plan, List.map_nil, List.nil_append, Option.toList_some, List.map_singleton,
      List.cons_prefix_cons] at hrecords
    exact .inr ⟨_, hrecords.1⟩
  | cons next more =>
    simp only [plan, List.map_cons, List.cons_append, List.cons_prefix_cons] at hrecords
    exact .inl ⟨_, hrecords.1⟩

end showing

/-! ## The relay -/

section relay

variable {stream : Fd} {payloads : List Bytes} {exit : ProcessExit} {decoder : Decoder}
  {records : List Record} {log : RunnerLog} {self : Self}

/-- The discipline of an attachment that goes on for ever only before it has read the stream. -/
abbrev parting (stream : Fd) (total : Bytes) : Discipline (logMachine (departed stream total)) :=
  halting (departed stream total) fun log => received stream log ≠ total

section traces

variable {A : Answers Call Call.Answer} {Stuck : RunnerLog → Prop} {P : RunnerLog → Prop}

/-- A trace's line keeps what its calls keep. -/
theorem wp_traceWrite (hP : ∀ op r log, Traces op → P log → P (⟨op, r⟩ :: log))
    (trace : Trace) (event : String) (detail : Bytes) (hlog : P log) :
    (halting A Stuck).wp () (trace.write self event detail) (fun _ => P) log := by
  unfold Trace.write
  split
  · exact hlog
  · refine wp_bind.mpr (wp_answer fun now _ => ?_)
    have hnow := hP (.process (.now .traceWrite)) now log rfl hlog
    refine wp_ret.mpr ?_
    dsimp only
    generalize Trace.line _ _ _ _ _ = line
    split
    · exact hnow
    · refine wp_answer fun r _ => ?_
      have hwrite := hP (.file (.writeAll .traceWrite trace.file line)) r _ rfl hnow
      rcases r with error | _ <;> exact hwrite

theorem wp_mapSome {p : Prog Trace} (hp : (halting A Stuck).wp () p (fun _ => P) log) :
    (halting A Stuck).wp () (some <$> p) (fun _ => P) log := by
  rw [map_eq_pure_bind]
  exact wp_bind.mpr hp

theorem wp_traceEvent (hP : ∀ op r log, Traces op → P log → P (⟨op, r⟩ :: log))
    (trace : Option Trace) (event : String) (hlog : P log) :
    (halting A Stuck).wp () (traceEvent self trace event) (fun _ => P) log := by
  cases trace with
  | none => exact hlog
  | some trace => exact wp_mapSome (wp_traceWrite hP trace event [] hlog)

theorem wp_traceIoError (hP : ∀ op r log, Traces op → P log → P (⟨op, r⟩ :: log))
    (trace : Option Trace) (event : String) (error : IoError) (hlog : P log) :
    (halting A Stuck).wp () (traceIoError self trace event error) (fun _ => P) log := by
  cases trace with
  | none => exact hlog
  | some trace =>
    refine wp_mapSome ?_
    unfold Trace.ioError
    cases error.rawOsError <;> exact wp_traceWrite hP trace event _ hlog

theorem wp_traceProcessExit (hP : ∀ op r log, Traces op → P log → P (⟨op, r⟩ :: log))
    (trace : Option Trace) (event : String) (exit : ProcessExit) (hlog : P log) :
    (halting A Stuck).wp () (traceProcessExit self trace event exit) (fun _ => P) log := by
  cases trace with
  | none => exact hlog
  | some trace => cases exit <;> exact wp_mapSome (wp_traceWrite hP trace event _ hlog)

end traces

theorem neutral_trace {op : Call} (hop : Traces op) (r : op.Answer) : Neutral stream ⟨op, r⟩ := by
  rcases op with op | op | op | op | op <;> cases op <;> first
    | exact hop.elim
    | exact ⟨rfl, rfl, id⟩

/-- Between two calls of the relay nothing has failed, and nothing is left to show. -/
structure Following (stream : Fd) (payloads : List Bytes) (exit : ProcessExit) (decoder : Decoder)
    (log : RunnerLog) : Prop where
  showing : Showing stream payloads exit decoder [] log
  clear : Clear log

theorem Following.cons {e : RunnerEvent} (h : Following stream payloads exit decoder log)
    (he : Neutral stream e) : Following stream payloads exit decoder (e :: log) :=
  ⟨h.showing.cons he.received he.shown, h.clear.cons he.passed⟩

theorem following_trace (op : Call) (r : op.Answer) (log : RunnerLog) (hop : Traces op)
    (h : Following stream payloads exit decoder log) :
    Following stream payloads exit decoder (⟨op, r⟩ :: log) :=
  h.cons (neutral_trace hop r)

theorem parted_trace {result : Except IoError ProcessExit} (op : Call) (r : op.Answer)
    (log : RunnerLog) (hop : Traces op) (h : Parted stream payloads exit result log) :
    Parted stream payloads exit result (⟨op, r⟩ :: log) :=
  h.cons (neutral_trace hop r)

/-- What showing the records comes to. -/
def Shows (stream : Fd) (payloads : List Bytes) (exit : ProcessExit) (decoder : Decoder) :
    Except IoError (Option ProcessExit × Bool) → RunnerLog → Prop
  | .ok (none, _), log => Following stream payloads exit decoder log
  | .ok (some status, _), log => status = exit ∧ shown log = payloads ∧ Clear log
  | .error _, log => Blocked log

theorem blocked_of_clear {e : RunnerEvent} (he : Obstacle e) (hopen : ¬ ClosedWrite e) :
    Blocked (e :: log) := ⟨e, List.mem_cons_self, he, hopen⟩

theorem wp_showRecords {total : Bytes} {trace : Option Trace} {wrote : Bool}
    (hshowing : Showing stream payloads exit decoder records log) (hclear : Clear log) :
    (parting stream total).wp () (showRecords self trace wrote records).run
      (Shows stream payloads exit decoder) log := by
  induction records generalizing wrote log with
  | nil => exact ⟨hshowing, hclear⟩
  | cons record records ih =>
    rcases hshowing.head with ⟨payload, rfl⟩ | ⟨status, rfl⟩
    · refine wp_io_bind.mpr (wp_performed fun r _ => ?_)
      rcases r with error | _
      · exact blocked_of_clear trivial id
      · exact ih hshowing.output (hclear.cons id)
    · obtain ⟨hstatus, hshown⟩ := hshowing.exit_eq
      refine wp_lift_bind.mpr (wp_mono ?_ (wp_traceProcessExit
        (P := fun log => shown log = payloads ∧ Clear log) ?_ _ _ _ ⟨hshown, hclear⟩))
      · rintro _ log ⟨hshown, hclear⟩
        refine wp_io_bind.mpr (wp_performed fun r _ => ?_)
        rcases r with error | _
        · exact blocked_of_clear trivial id
        · exact ⟨hstatus, (List.append_nil _).trans hshown, hclear.cons id⟩
      · rintro op r log hop ⟨hshown, hclear⟩
        have hneutral : Neutral stream ⟨op, r⟩ := neutral_trace hop r
        refine ⟨?_, hclear.cons hneutral.passed⟩
        rw [shown, hneutral.shown, List.append_nil]
        exact hshown

/-! ## Turns -/

/-- What a turn of the relay comes to. -/
def Turned (stream : Fd) (payloads : List Bytes) (exit : ProcessExit) :
    Except IoError AttachTurn → RunnerLog → Prop
  | .ok (.again st), log =>
    st.stdinClosed = false ∧ Following stream payloads exit st.decoder log
  | .ok (.done status), log => Parted stream payloads exit (.ok status) log
  | .error error, log => Parted stream payloads exit (.error error) log

/-- A small record is queued, or the queue is full. -/
theorem queueRecord_cases (queue : ByteQueue) (record : Record)
    (h : (encodedShape record).2 ≤ maxIpcPayloadBytes) :
    (∃ queue', queueRecord queue record = .ok queue') ∨ queueRecord queue record = .error queueFull := by
  have hsmall : payloadTooLarge record = false := by
    cases record <;> simp_all [payloadTooLarge, encodedShape]
  have hencoded : encodeRecord record = .ok (writeRecord record) := by
    rw [encodeRecord, encode, if_neg (Nat.not_lt.mpr h)]
  simp only [queueRecord, hsmall, hencoded, Bool.false_eq_true, if_false, bind, Except.bind]
  rcases queue.push (writeRecord record) with ⟨queue', _ | _⟩
  · exact .inr rfl
  · exact .inl ⟨queue', rfl⟩

theorem wp_readReplies {total : Bytes} (htotal : total = farewell payloads exit)
    (hsendable : Sendable payloads) (hexit : (Record.exit exit).Valid)
    (h : Following stream payloads exit decoder log) :
    (parting stream total).wp () (readReplies stream decoder).run
      (fun result log' => ∃ records decoder', result = .ok (some (records, decoder')) ∧
        Showing stream payloads exit decoder' records log' ∧ Clear log') log := by
  subst htotal
  have hunfinished := h.showing.unfinished hsendable hexit
  have hroom : ¬ min decoder.remainingCapacity ioChunkBytes = 0 := by
    have := Decoder.remainingCapacity_pos h.showing.drained
    simp only [ioChunkBytes]
    omega
  unfold readReplies
  dsimp only
  rw [if_neg hroom]
  refine wp_attempt_bind.mpr (wp_performed fun r hr => ?_)
  rcases r with error | (_ | ⟨byte, bytes⟩)
  · have hblock : error.kind = .wouldBlock ∨ error.kind = .interrupted := by
      rcases hr rfl with hblock | hinterrupted | hdone
      · exact .inl hblock
      · exact .inr hinterrupted
      · exact absurd hdone hunfinished
    simp only [if_pos hblock]
    exact ⟨[], decoder, rfl, h.showing.cons rfl rfl, h.clear.cons id⟩
  · exact absurd ((hr rfl).2.2 rfl) hunfinished
  · obtain ⟨hlength, hpart, -⟩ := hr rfl
    obtain ⟨pushed, hpush, hpushed⟩ := Decoder.push_fits (d := decoder)
      (hlength.trans (Nat.min_le_left _ _))
    obtain ⟨records, decoder', hdrain, hshowing⟩ := h.showing.push
      (.socket (.read stream (min decoder.remainingCapacity ioChunkBytes)))
      (.ok (byte :: bytes)) hsendable hexit hpart hpushed (if_pos rfl) rfl
    simp only [hpush, hdrain]
    exact ⟨records, decoder', rfl, hshowing, h.clear.cons id⟩

/-- A trace's line that is written or not. -/
theorem wp_traceIf {total : Bytes} {c : Bool} {trace : Option Trace} {event : String}
    {f : Option Trace → Io AttachTurn} {Q : Except IoError AttachTurn → RunnerLog → Prop}
    (h : Following stream payloads exit decoder log)
    (hf : ∀ trace log', Following stream payloads exit decoder log' →
      (parting stream total).wp () (f trace).run Q log') :
    (parting stream total).wp ()
      ((if c = true then liftM (traceEvent self trace event) else pure trace) >>= f).run Q log := by
  refine wp_io_bind.mpr ?_
  split
  · refine wp_lift.mpr (wp_mono ?_ (wp_traceEvent following_trace trace event h))
    exact fun trace log' h => hf trace log' h
  · exact hf trace log h

theorem wp_receiveReplies {total : Bytes} (htotal : total = farewell payloads exit)
    (hsendable : Sendable payloads) (hexit : (Record.exit exit).Valid) {events : PollFlags}
    {st : AttachState} (hopen : st.stdinClosed = false)
    (h : Following stream payloads exit st.decoder log) :
    (parting stream total).wp () (receiveReplies self stream events st).run
      (Turned stream payloads exit) log := by
  unfold receiveReplies
  refine wp_traceIf h fun trace log h => wp_traceIf h fun trace log h => ?_
  refine wp_attempt_bind.mpr (wp_mono ?_ (wp_readReplies htotal hsendable hexit h))
  rintro _ log ⟨records, decoder, rfl, hshowing, hclear⟩
  refine wp_io_bind.mpr (wp_mono ?_ (wp_showRecords hshowing hclear))
  rintro (error | ⟨_ | status, wrote⟩) log hshows
  · exact .inr hshows
  · refine wp_io_bind.mpr ?_
    split
    · refine wp_performed fun r _ => ?_
      rcases r with error | _
      · exact .inr (blocked_of_clear trivial id)
      · exact ⟨hopen, hshows.cons ⟨rfl, rfl, id⟩⟩
    · exact ⟨hopen, hshows⟩
  · exact .inl hshows

/-- What sending comes to: nothing failed, the connection was closed, or something else failed. -/
def Flushed (stream : Fd) (payloads : List Bytes) (exit : ProcessExit) (decoder : Decoder) :
    ByteQueue × Except IoError Unit → RunnerLog → Prop
  | (_, .ok ()), log => Following stream payloads exit decoder log
  | (_, .error error), log =>
    if attachmentClosed error then Parted stream payloads exit (.ok (.code 0)) log else Blocked log

theorem wp_flushStream {total : Bytes} {rounds : Nat} {queue : ByteQueue}
    (htotal : total = farewell payloads exit) (hsendable : Sendable payloads)
    (hexit : (Record.exit exit).Valid) (h : Following stream payloads exit decoder log) :
    (parting stream total).wp () (flushQueue (writeStream stream) rounds queue)
      (Flushed stream payloads exit decoder) log := by
  induction rounds generalizing queue log with
  | zero =>
    rw [htotal]
    exact h.showing.unfinished hsendable hexit
  | succ rounds ih =>
    unfold flushQueue
    split
    · exact h
    · refine wp_bind.mpr (wp_performed fun r _ => ?_)
      rcases r with error | (_ | n)
      · by_cases hblock : error.kind = .wouldBlock
        · simp only [if_pos hblock]
          exact h.cons ⟨rfl, rfl, fun hobstacle => hobstacle.1 hblock⟩
        · by_cases hinterrupted : error.kind = .interrupted
          · simp only [if_neg hblock, if_pos hinterrupted]
            exact ih (h.cons ⟨rfl, rfl, fun hobstacle => hobstacle.2 hinterrupted⟩)
          · have hobstacle : Obstacle ⟨.socket (.write stream queue.bytes), .error error⟩ :=
              ⟨hblock, hinterrupted⟩
            simp only [if_neg hblock, if_neg hinterrupted]
            show ite _ _ _
            split
            · rename_i hclosed
              exact .inr ⟨rfl, hindered_of_clear h.clear hobstacle hclosed, decoder,
                h.showing.cons rfl rfl⟩
            · rename_i hopen
              exact blocked_of_clear hobstacle hopen
      · exact blocked_of_clear rfl id
      · exact ih (h.cons ⟨rfl, rfl, Nat.succ_ne_zero n⟩)

theorem wp_relay {total : Bytes} (htotal : total = farewell payloads exit)
    (hsendable : Sendable payloads) (hexit : (Record.exit exit).Valid) {events : PollFlags}
    {st : AttachState} (hopen : st.stdinClosed = false)
    (h : Following stream payloads exit st.decoder log) :
    (parting stream total).wp () (relay self stream events st).run
      (Turned stream payloads exit) log := by
  have hflush : (parting stream total).wp ()
      (if events.writable = true then
        (liftM (flushQueue (writeStream stream) self.rounds st.socketOutput) : Io _)
      else pure (st.socketOutput, .ok ())).run
      (fun result log' => ∃ flushed, result = .ok flushed ∧
        Flushed stream payloads exit st.decoder flushed log') log := by
    split
    · exact wp_lift.mpr (wp_mono (fun flushed log h => ⟨flushed, rfl, h⟩)
        (wp_flushStream htotal hsendable hexit h))
    · exact ⟨_, rfl, h⟩
  unfold relay
  refine wp_io_bind.mpr (wp_mono ?_ hflush)
  rintro _ log ⟨⟨socketOutput, error | _⟩, rfl, hflushed⟩
  · rw [Flushed] at hflushed
    dsimp only [onOk_ok]
    split at hflushed
    · rename_i hclosed
      rw [if_pos hclosed]
      exact wp_lift_bind.mpr (wp_traceIoError parted_trace _ _ _ hflushed)
    · rename_i hother
      rw [if_neg hother]
      refine wp_lift_bind.mpr (wp_mono ?_ (wp_traceIoError (P := Blocked)
        (fun _ _ _ _ h => h.cons) _ _ _ hflushed))
      exact fun _ _ h => .inr h
  · dsimp only [onOk_ok]
    rw [if_neg (by simp [hopen])]
    split
    · exact wp_receiveReplies htotal hsendable hexit hopen hflushed
    · exact ⟨hopen, hflushed⟩

/-- What queueing a record or taking input comes to. -/
def Gathered (stream : Fd) (payloads : List Bytes) (exit : ProcessExit) :
    Except IoError AttachState → RunnerLog → Prop
  | .ok st, log => st.stdinClosed = false ∧ Following stream payloads exit st.decoder log
  | .error error, _ => error = queueFull

theorem wp_windowSize {total : Bytes} (h : Following stream payloads exit decoder log) :
    (parting stream total).wp () windowSize.run
      (fun _ log' => Following stream payloads exit decoder log') log := by
  unfold windowSize
  refine wp_io_bind.mpr (wp_performed fun r _ => ?_)
  have hasked : Following stream payloads exit decoder (⟨.terminal .windowSize, r⟩ :: log) :=
    h.cons ⟨rfl, rfl, id⟩
  rcases r with error | ⟨rows, columns⟩
  · exact hasked
  · dsimp only [onOk_ok]
    refine wp_io_bind.mpr ?_
    unfold validateDimensions
    split <;> exact hasked

theorem wp_queueResize {total : Bytes} {st : AttachState} (hopen : st.stdinClosed = false)
    (h : Following stream payloads exit st.decoder log) :
    (parting stream total).wp () (queueResize self st).run (Gathered stream payloads exit) log := by
  unfold queueResize
  refine wp_attempt_bind.mpr (wp_mono ?_ (wp_windowSize h))
  rintro (error | ⟨rows, columns⟩) log h
  · refine wp_lift_bind.mpr (wp_mono ?_ (wp_traceEvent following_trace _ _ h))
    exact fun _ _ h => ⟨hopen, h⟩
  · rcases queueRecord_cases st.socketOutput (.resize rows columns)
      (by simp [encodedShape, maxIpcPayloadBytes])
      with ⟨queue, hqueued⟩ | hfull
    · simp only [hqueued]
      refine wp_lift_bind.mpr (wp_mono ?_ (wp_traceEvent following_trace _ _ h))
      exact fun _ _ h => ⟨hopen, h⟩
    · simp only [hfull]
      rfl

/-- Taking one event of an input that stays open. -/
theorem wp_receiveInput {total : Bytes} {queue : ByteQueue}
    (h : Following stream payloads exit decoder log) :
    (parting stream total).wp () (receiveInput queue).run
      (fun r log' => (∃ queue', r = .ok (false, queue') ∧
        Following stream payloads exit decoder log') ∨ r = .error queueFull) log := by
  unfold receiveInput
  refine wp_lift_bind.mpr (wp_performed fun event hevent => ?_)
  have hasked : Following stream payloads exit decoder (⟨.terminal .tryRecv, event⟩ :: log) :=
    h.cons ⟨rfl, rfl, id⟩
  cases event with
  | bytes bytes =>
    have hsmall : bytes.length ≤ maxIpcPayloadBytes :=
      (show bytes.length ≤ ioChunkBytes from hevent).trans (by decide)
    rcases queueRecord_cases queue (.input bytes) hsmall with ⟨queue', hqueued⟩ | hfull
    · simp only [hqueued]
      exact .inl ⟨queue', rfl, hasked⟩
    · simp only [hfull]
      exact .inr rfl
  | closed => exact hevent.elim
  | disconnected => exact hevent.elim
  | failed error => exact hevent.elim
  | empty => exact .inl ⟨_, rfl, hasked⟩

theorem wp_pollInput {total : Bytes} {st : AttachState} (hopen : st.stdinClosed = false)
    (h : Following stream payloads exit st.decoder log) :
    (parting stream total).wp () (pollInput self st).run (Gathered stream payloads exit) log := by
  unfold pollInput
  rw [if_neg (by simp [hopen])]
  refine wp_attempt_bind.mpr (wp_mono ?_ (wp_receiveInput h))
  rintro r log (⟨queue, rfl, h⟩ | rfl)
  · exact ⟨rfl, h⟩
  · exact wp_lift_bind.mpr (wp_traceIoError (P := fun _ => queueFull = queueFull)
      (fun _ _ _ _ _ => rfl) _ _ _ rfl)

theorem wp_attachTurn {total : Bytes} (htotal : total = farewell payloads exit)
    (hsendable : Sendable payloads) (hexit : (Record.exit exit).Valid) {st : AttachState}
    (hopen : st.stdinClosed = false) (h : Following stream payloads exit st.decoder log) :
    (parting stream total).wp () (attachTurn self stream st).run
      (Turned stream payloads exit) log := by
  have hgather : ∀ (p : Io AttachState) (f : AttachState → Io AttachTurn) (log : RunnerLog),
      (parting stream total).wp () p.run (Gathered stream payloads exit) log →
        (∀ st log, st.stdinClosed = false → Following stream payloads exit st.decoder log →
          (parting stream total).wp () (f st).run (Turned stream payloads exit) log) →
            (parting stream total).wp () (p >>= f).run (Turned stream payloads exit) log :=
    fun p f log hp hf => wp_seq _ hp (fun st log h => hf st log h.1 h.2)
      fun _ _ hfull => .inl hfull
  unfold attachTurn
  refine wp_lift_bind.mpr (wp_performed fun hangup hhangup => ?_)
  have h := h.cons (e := ⟨.terminal .hangup, hangup⟩) ⟨rfl, rfl, id⟩
  cases hangup with
  | true => exact hhangup.elim
  | false =>
    refine wp_lift_bind.mpr (wp_performed fun terminate hterminate => ?_)
    have h := h.cons (e := ⟨.terminal .terminate, terminate⟩) ⟨rfl, rfl, id⟩
    cases terminate with
    | true => exact hterminate.elim
    | false =>
      refine wp_lift_bind.mpr (wp_performed fun resized _ => ?_)
      have h := h.cons (e := ⟨.terminal .resized, resized⟩) ⟨rfl, rfl, id⟩
      refine hgather _ _ _ ?_ fun st log hopen h => ?_
      · split
        · exact wp_queueResize hopen h
        · exact ⟨hopen, h⟩
      refine hgather _ _ _ (wp_pollInput hopen h) fun st log hopen h => ?_
      refine wp_attempt_bind.mpr (wp_performed fun r _ => ?_)
      rcases r with error | events
      · by_cases hinterrupted : error.kind = .interrupted
        · simp only [if_pos hinterrupted]
          exact ⟨hopen, h.cons ⟨rfl, rfl, fun hobstacle => hobstacle hinterrupted⟩⟩
        · simp only [if_neg hinterrupted]
          have hblocked : Blocked (⟨.terminal (.pollStream stream !st.socketOutput.isEmpty),
              .error error⟩ :: log) := blocked_of_clear hinterrupted id
          refine wp_lift_bind.mpr (wp_mono ?_ (wp_traceIoError (P := Blocked)
            (fun _ _ _ _ h => h.cons) _ _ _ hblocked))
          exact fun _ _ h => .inr h
      · exact wp_relay htotal hsendable hexit hopen (h.cons ⟨rfl, rfl, id⟩)

theorem wp_attachLoop {total : Bytes} (htotal : total = farewell payloads exit)
    (hsendable : Sendable payloads) (hexit : (Record.exit exit).Valid) {rounds : Nat}
    {st : AttachState} (hopen : st.stdinClosed = false)
    (h : Following stream payloads exit st.decoder log) :
    (parting stream total).wp () (attachLoop self stream rounds st).run
      (Parted stream payloads exit) log := by
  induction rounds generalizing st log with
  | zero =>
    rw [htotal]
    exact h.showing.unfinished hsendable hexit
  | succ rounds ih =>
    unfold attachLoop
    refine wp_io_bind.mpr (wp_mono ?_ (wp_attachTurn htotal hsendable hexit hopen h))
    rintro (error | turn) log hturned
    · exact hturned
    · cases turn with
      | again st => exact ih hturned.1 hturned.2
      | done status => exact hturned

theorem wp_attachRaw {total : Bytes} (htotal : total = farewell payloads exit)
    (hsendable : Sendable payloads) (hexit : (Record.exit exit).Valid)
    {dimensions : UInt16 × UInt16} {trace : Option Trace}
    (h : Following stream payloads exit .empty log) :
    (parting stream total).wp () (attachRaw self stream dimensions trace).run
      (Parted stream payloads exit) log := by
  unfold attachRaw
  refine wp_lift_bind.mpr (wp_mono ?_ (wp_traceEvent following_trace _ _ h))
  intro trace log h
  refine wp_attempt_bind.mpr (wp_performed fun r _ => ?_)
  rcases r with error | _
  · have hblocked : Blocked (⟨.terminal .registerSignals, .error error⟩ :: log) :=
      blocked_of_clear trivial id
    refine wp_lift_bind.mpr (wp_mono ?_ (wp_traceIoError (P := Blocked)
      (fun _ _ _ _ h => h.cons) _ _ _ hblocked))
    exact fun _ _ h => .inr h
  · have hregistered := h.cons (e := ⟨.terminal .registerSignals, .ok ()⟩) ⟨rfl, rfl, id⟩
    rcases queueRecord_cases (.new maxAttachmentQueueBytes)
      (.attach dimensions.1 dimensions.2) (by simp [encodedShape, maxIpcPayloadBytes])
      with ⟨queue, hqueued⟩ | hfull
    · simp only [hqueued]
      exact wp_attachLoop htotal hsendable hexit rfl hregistered
    · simp only [hfull]
      exact .inl rfl

theorem wp_attachLive (self : Self) (stream : Fd) {total : Bytes} (htotal : total = farewell payloads exit)
    (hsendable : Sendable payloads) (hexit : (Record.exit exit).Valid) (trace : Option Trace) :
    (parting stream total).wp () (attachLive self stream trace).run
      (Parted stream payloads exit) [] := by
  have hstart : Following stream payloads exit .empty [] :=
    ⟨⟨rfl, cut_nil, payloads, rfl, List.nil_prefix⟩, by simp [Clear]⟩
  unfold attachLive
  refine wp_attempt_bind.mpr (wp_mono (Q := Parted stream payloads exit) ?_ ?_)
  · intro r log hparted
    refine wp_lift_bind.mpr (wp_performed fun closed _ => ?_)
    exact hparted.cons ⟨rfl, rfl, id⟩
  refine wp_io_bind.mpr (wp_performed fun r _ => ?_)
  rcases r with error | _
  · exact .inr (blocked_of_clear trivial id)
  have h := hstart.cons (e := ⟨.socket (.setNonblocking stream true), .ok ()⟩) ⟨rfl, rfl, id⟩
  refine wp_lift_bind.mpr (wp_bind.mpr (wp_mono ?_ (wp_windowSize h)))
  intro dimensions log h
  refine wp_attempt_bind.mpr (wp_performed fun r _ => ?_)
  rcases r with error | _
  · have hblocked : Blocked (⟨.terminal .enterRaw, .error error⟩ :: log) :=
      blocked_of_clear trivial id
    refine wp_lift_bind.mpr (wp_mono ?_ (wp_traceIoError (P := Blocked)
      (fun _ _ _ _ h => h.cons) _ _ _ hblocked))
    exact fun _ _ h => .inr h
  · have hraw := h.cons (e := ⟨.terminal .enterRaw, .ok ()⟩) ⟨rfl, rfl, id⟩
    refine wp_attempt_bind.mpr (wp_mono ?_ (wp_attachRaw htotal hsendable hexit hraw))
    intro r log hparted
    refine wp_lift_bind.mpr (wp_performed fun left _ => ?_)
    exact hparted.cons ⟨rfl, rfl, id⟩

end relay

/-! ## The result -/

theorem outputs_read {stream : Fd} {payloads : List Bytes} {exit : ProcessExit}
    {decoder : Decoder} {log : RunnerLog} (hsendable : Sendable payloads)
    (h : Showing stream payloads exit decoder [] log) :
    shown log = payloads ↔ outputRecords payloads <+: received stream log := by
  have hreceived := h.received
  rw [List.flatMap_nil, List.append_nil] at hreceived
  obtain ⟨more, hmore, -⟩ := h.planned
  rw [hreceived]
  constructor
  · rintro rfl
    exact List.prefix_append _ _
  · intro hread
    rw [hmore, outputRecords_append, List.prefix_append_right_inj] at hread
    have hnil := h.nil_of_prefix (more.map .output) ?_ hread
    · rw [hmore, List.map_eq_nil_iff.mp hnil, List.append_nil]
    · intro record hrecord
      obtain ⟨payload, hpayload, rfl⟩ := List.mem_map.mp hrecord
      exact hsendable payload (by simp [hmore, hpayload])

/-- **The exit that was sent is returned, after all output, unless a call fails**, however the
stream is split and whatever else happens. A write to the closed connection is such a failure; it
goes unnoticed only when the exit is the one that the attachment makes up, and all output had been
read. An attachment that goes on for ever has not been given the whole stream. -/
theorem exit_delivered (self : Self) (stream : Fd) (trace : Option Trace) (payloads : List Bytes)
    (exit : ProcessExit) (hsendable : Sendable payloads) (hexit : (Record.exit exit).Valid)
    {log : RunnerLog} {p : Prog (Except IoError ProcessExit)}
    (hrun : Runs (departed stream (farewell payloads exit)) (attachLive self stream trace).run
      log p) :
    (∀ r, p = .ret r → r ≠ .error queueFull →
      ((r = .ok exit ∧ shown log = payloads) ↔
        ∀ e ∈ log, Obstacle e → ClosedWrite e ∧ exit = .code 0 ∧
          outputRecords payloads <+: received stream log)) ∧
      (p = .spin → received stream log ≠ farewell payloads exit) := by
  obtain ⟨hreturns, hstuck⟩ := halting_sound
    (wp_attachLive self stream rfl hsendable hexit trace) hrun
  refine ⟨fun r hr hroom => ?_, hstuck⟩
  have hparted := hreturns r hr
  cases r with
  | error error =>
    rcases hparted with hfull | ⟨e, he, hobstacle, hopen⟩
    · exact absurd (congrArg _ hfull) hroom
    · exact iff_of_false (by simp) fun h => hopen (h e he hobstacle).1
  | ok status =>
    rcases hparted with ⟨rfl, hshown, hclear⟩ | ⟨rfl, ⟨⟨e, he, hobstacle⟩, hclosed⟩, decoder, h⟩
    · exact iff_of_true ⟨rfl, hshown⟩ fun e he hobstacle => absurd hobstacle (hclear e he)
    · rw [outputs_read hsendable h]
      constructor
      · rintro ⟨hstatus, hread⟩ e he hobstacle
        exact ⟨hclosed e he hobstacle, (Except.ok.inj hstatus).symm, hread⟩
      · intro hlucky
        obtain ⟨-, rfl, hread⟩ := hlucky e he hobstacle
        exact ⟨rfl, hread⟩

/-- The connection is always ready. -/
def readyAnswer (s : Scene) : (op : Call) → op.Answer × Scene
  | .terminal (.pollStream ..) => (.ok ⟨true, true, true, false⟩, s)
  | op => s.answer op

/-- The runner sends output and the exit 3, and its end stays open for writing. -/
def patientScene : Scene where
  reads := [.ok (farewell [ascii "bye"] (.code 3))]

/-- The runner sends output and the exit 3, and closes before the attachment writes. -/
def hastyScene : Scene where
  reads := [.ok (farewell [ascii "bye"] (.code 3))]
  writes := [.error (.os .brokenPipe 32)]

theorem sendable_bye : Sendable [ascii "bye"] := by
  intro payload hpayload
  rw [List.mem_singleton.mp hpayload]
  decide

theorem exit_delivered_patient : ∃ log,
    Runs (departed 5 (farewell [ascii "bye"] (.code 3)))
      (attachLive exampleContext.self 5 none).run log (.ret (.ok (.code 3))) ∧
        shown log = [ascii "bye"] := by
  have hrun := runs_play (A := departed 5 (farewell [ascii "bye"] (.code 3))) (o := readyAnswer)
    (n := 24) (s := patientScene) (p := (attachLive exampleContext.self 5 none).run)
    (by decide +kernel)
  obtain ⟨r, hr, hroom⟩ := Program.exists_of_returned
    (f := fun r => r.isOk)
    (p := (play readyAnswer 24 patientScene [] (attachLive exampleContext.self 5 none).run).2)
    (by decide +kernel)
  have hdelivered := (exit_delivered exampleContext.self 5 none [ascii "bye"] (.code 3)
    sendable_bye trivial hrun).1 r hr (by rintro rfl; cases hroom)
  rw [hr] at hrun
  obtain ⟨rfl, hshown⟩ := hdelivered.mpr (by decide +kernel)
  exact ⟨_, hrun, hshown⟩

/-- An exit that waits in the socket is lost to a failed write. -/
theorem exit_lost : ∃ log,
    Runs (departed 5 (farewell [ascii "bye"] (.code 3)))
      (attachLive exampleContext.self 5 none).run log (.ret (.ok (.code 0))) ∧ shown log = [] := by
  have hrun := runs_play (A := departed 5 (farewell [ascii "bye"] (.code 3))) (o := readyAnswer)
    (n := 24) (s := hastyScene) (p := (attachLive exampleContext.self 5 none).run)
    (by decide +kernel)
  obtain ⟨r, hr, hcode⟩ := Program.exists_of_returned
    (f := fun r => r.toOption.any fun status => status = .code 0)
    (p := (play readyAnswer 24 hastyScene [] (attachLive exampleContext.self 5 none).run).2)
    (by decide +kernel)
  rw [hr] at hrun
  cases r with
  | error error => cases hcode
  | ok status =>
    obtain rfl : status = .code 0 := of_decide_eq_true hcode
    exact ⟨_, hrun, by decide +kernel⟩

end AfkCli
