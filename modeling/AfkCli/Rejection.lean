import AfkCli.Completion

/-!
# Rejected candidates

The records that come with a candidate's `Attach` are applied one at a time, after the window size
and the replay, and the batch is given up at the first record that is out of protocol or that the
input queue has no room for. What was applied before that record stays applied.

## Main definitions

* `windowAfter`: the size of the terminal's window after a log
* `batch`: the records that the candidate's read completed
* `Unaffected`: nothing is left of the batch
* `Harmless`: nothing was applied, or it was undone, before the record that is rejected

## Main results

* `rejection_unaffected`: a batch that is not activated leaves nothing behind exactly when it is
  harmless
-/

namespace AfkCli

open Interaction Discipline

/-! ## Views -/

/-- The size of the terminal's window, which was `size` before the log. -/
def windowAfter (size : UInt16 × UInt16) : RunnerLog → UInt16 × UInt16
  | [] => size
  | ⟨.process (.setWindowSize rows columns), .ok _⟩ :: _ => (rows, columns)
  | _ :: log => windowAfter size log

/-- The event leaves the session's files as they are; a trace's line is not one of them. -/
def SparesFiles (e : RunnerEvent) : Prop := ∀ call, e.op = .file call → Traces e.op

/-- The records that a read completed, by its event. -/
def batchOf (connection : Connection) : RunnerEvent → List Record
  | ⟨.socket (.read ..), r⟩ =>
    match connection.receive r with
    | .records _ records => records
    | _ => []
  | _ => []

/-- The records that the first read of the log completed. -/
def batch (connection : Connection) (log : RunnerLog) : List Record :=
  (log.getLast?.map (batchOf connection)).getD []

/-- The window, the input queue, the active attachment, the tail and the stored files are as they
were before the log, in which the state `st` became `st'`. -/
structure Unaffected (size : UInt16 × UInt16) (st st' : LoopState) (log : RunnerLog) : Prop where
  window : windowAfter size log = size
  ptyInput : st'.ptyInput = st.ptyInput
  active : st'.active = st.active
  tail : st'.tail = st.tail
  files : ∀ e ∈ log, SparesFiles e

/-! ## The condition -/

/-- Up to the first record that is rejected the records take no input, and the last size set is
`size`; `last` is the size set before them. -/
def HarmlessRecords (size : UInt16 × UInt16) (queue : ByteQueue) :
    UInt16 × UInt16 → List Record → Prop
  | last, .input bytes :: rest =>
    if queue.bytes.length + bytes.length ≤ queue.limit then
      bytes = [] ∧ HarmlessRecords size queue last rest
    else last = size
  | _, .resize rows columns :: rest => HarmlessRecords size queue (rows, columns) rest
  | last, _ => last = size

/-- A batch without an `Attach` applies nothing; one with an `Attach` sets the size first. -/
def Harmless (size : UInt16 × UInt16) (queue : ByteQueue) : List Record → Prop
  | .attach rows columns :: rest => HarmlessRecords size queue (rows, columns) rest
  | _ => True

instance decidableHarmlessRecords (size : UInt16 × UInt16) (queue : ByteQueue) :
    (last : UInt16 × UInt16) → DecidablePred (HarmlessRecords size queue last)
  | last, .input bytes :: rest =>
    have := decidableHarmlessRecords size queue last rest
    inferInstanceAs (Decidable (if queue.bytes.length + bytes.length ≤ queue.limit then
      bytes = [] ∧ HarmlessRecords size queue last rest else last = size))
  | _, .resize rows columns :: rest => decidableHarmlessRecords size queue (rows, columns) rest
  | last, [] | last, .attach .. :: _ | last, .output _ :: _ | last, .exit _ :: _
  | last, .stop :: _ => inferInstanceAs (Decidable (last = size))

instance (size : UInt16 × UInt16) (queue : ByteQueue) : DecidablePred (Harmless size queue)
  | .attach rows columns :: rest => decidableHarmlessRecords size queue (rows, columns) rest
  | [] | .input _ :: _ | .output _ :: _ | .resize .. :: _ | .exit _ :: _ | .stop :: _ =>
    isTrue trivial

/-! ## One call -/

/-- Any answers. -/
abbrev anyAnswer : Answers Call Call.Answer := fun _ _ _ => True

/-- The discipline of programs of whose logs nothing is asked. -/
abbrev logged : Discipline (logMachine anyAnswer) := keeping anyAnswer fun _ => True

section calls

variable {α : Type} {log : RunnerLog} {size last : UInt16 × UInt16} {connection : Connection}
  {records : List Record}

theorem wp_logged {op : Call} {Q : op.Answer → RunnerLog → Prop}
    (h : ∀ r, Q r (⟨op, r⟩ :: log)) : logged.wp () (Program.perform op) Q log :=
  wp_record fun r _ => ⟨trivial, h r⟩

theorem batch_cons {connection : Connection} {e : RunnerEvent} (he : batchOf connection e = []) :
    batch connection (e :: log) = batch connection log := by
  cases log with
  | nil => simpa [batch] using he
  | cons e' log => simp only [batch, List.getLast?_cons_cons]

/-- A batch is being handled: the connection's read completed the records, the window has the size
`last`, and no file was touched. -/
structure Handling (connection : Connection) (records : List Record) (size last : UInt16 × UInt16)
    (log : RunnerLog) : Prop where
  batch : batch connection log = records
  window : windowAfter size log = last
  files : ∀ e ∈ log, SparesFiles e

/-- A call that reads nothing, sets no size and touches no file. -/
structure Idle (op : Call) : Prop where
  read : ∀ stream capacity, op ≠ .socket (.read stream capacity)
  window : ∀ rows columns, op ≠ .process (.setWindowSize rows columns)
  files : ∀ call, op = .file call → Traces op

theorem windowAfter_idle {op : Call} (hop : Idle op) (r : op.Answer) :
    windowAfter size (⟨op, r⟩ :: log) = windowAfter size log := by
  rcases op with op | op | op | op | op <;> try rfl
  cases op <;> try rfl
  exact absurd rfl (hop.window _ _)

theorem batchOf_idle {connection : Connection} {op : Call} (hop : Idle op) (r : op.Answer) :
    batchOf connection ⟨op, r⟩ = [] := by
  rcases op with op | op | op | op | op <;> try rfl
  cases op <;> try rfl
  exact absurd rfl (hop.read _ _)

theorem Handling.idle {op : Call} (h : Handling connection records size last log) (hop : Idle op)
    (r : op.Answer) : Handling connection records size last (⟨op, r⟩ :: log) where
  batch := (batch_cons (batchOf_idle hop r)).trans h.batch
  window := (windowAfter_idle hop r).trans h.window
  files := List.forall_mem_cons.mpr ⟨hop.files, h.files⟩

theorem Handling.resize {rows columns : UInt16} (h : Handling connection records size last log) :
    Handling connection records size (rows, columns)
      (⟨.process (.setWindowSize rows columns), .ok ()⟩ :: log) where
  batch := (batch_cons rfl).trans h.batch
  window := rfl
  files := List.forall_mem_cons.mpr ⟨(by rintro _ ⟨⟩), h.files⟩

theorem handling_nil : Handling connection [] size size [] where
  batch := rfl
  window := rfl
  files := by simp

/-- The read that begins the handling. -/
theorem handling_read (connection : Connection) (size : UInt16 × UInt16) (stream : Fd)
    (capacity : Nat) (r : Except IoError Bytes) :
    Handling connection (batchOf connection ⟨.socket (.read stream capacity), r⟩) size size
      [⟨.socket (.read stream capacity), r⟩] where
  batch := rfl
  window := rfl
  files := List.forall_mem_singleton.mpr (by rintro _ ⟨⟩)

theorem idle_trace {op : Call} (hop : Traces op) : Idle op where
  read := by
    rintro stream capacity rfl
    exact hop
  window := by
    rintro rows columns rfl
    exact hop
  files := fun _ _ => hop

theorem idle_close (stream : Fd) : Idle (.socket (.close stream)) := ⟨by simp, by simp, by simp⟩

theorem idle_note (note : Note) : Idle (.note note) := ⟨by simp, by simp, by simp⟩

/-- A trace's lines leave the batch as it is. -/
theorem wp_handlingTrace {p : Prog α} {q : α → Prop} (hp : p.Within (fun _ _ => True) Traces q)
    (hlog : Handling connection records size last log) :
    logged.wp () p (fun a log' => q a ∧ Handling connection records size last log') log :=
  wp_quiet hp (fun _ r _ hop hlog => ⟨trivial, hlog.idle (idle_trace hop) r⟩) hlog

end calls

/-! ## Applying records -/

section batch

variable {log : RunnerLog} {size last : UInt16 × UInt16} {connection : Connection}
  {batch : List Record}

/-- What the rejected records of a batch leave: nothing, exactly when they are harmless. Input is
only ever added to the queue. -/
def Applied (connection : Connection) (batch : List Record) (size last : UInt16 × UInt16) (queue : ByteQueue)
    (records : List Record) : Except IoError (Bool × ByteQueue) → RunnerLog → Prop
  | .ok (false, queue'), log =>
    (∃ last', Handling connection batch size last' log ∧
      ((last' = size ∧ queue' = queue) ↔ HarmlessRecords size queue last records)) ∧
    queue.bytes.length ≤ queue'.bytes.length
  | _, _ => True

theorem push_nil (queue : ByteQueue) : queue.push [] = (queue, true) := by
  simp [ByteQueue.push]

theorem push_cases (queue : ByteQueue) (bytes : Bytes) :
    (queue.bytes.length + bytes.length ≤ queue.limit ∧
      ∃ queue', queue.push bytes = (queue', true) ∧ queue'.bytes = queue.bytes ++ bytes) ∨
    (¬ queue.bytes.length + bytes.length ≤ queue.limit ∧ queue.push bytes = (queue, false)) := by
  by_cases hfits : queue.bytes.length + bytes.length ≤ queue.limit
  · obtain ⟨hpushed, hbytes, -⟩ := ByteQueue.push_fits hfits
    exact .inl ⟨hfits, _, Prod.ext rfl hpushed, hbytes⟩
  · exact .inr ⟨hfits, ByteQueue.push_refused (by omega)⟩

/-- Records that are rejected at once leave what was applied before. -/
theorem applied_rejected {queue : ByteQueue} {records : List Record}
    (hlog : Handling connection batch size last log)
    (hrecords : HarmlessRecords size queue last records ↔ last = size) :
    Applied connection batch size last queue records (.ok (false, queue)) log := by
  refine ⟨⟨last, hlog, ?_⟩, le_rfl⟩
  rw [hrecords]
  exact and_iff_left rfl

/-- Input in front of the records: it is harmless only when it is empty. -/
theorem applied_input {queue queue₁ : ByteQueue} {bytes : Bytes} {rest : List Record}
    {r : Except IoError (Bool × ByteQueue)}
    (hfits : queue.bytes.length + bytes.length ≤ queue.limit)
    (hpush : queue.push bytes = (queue₁, true)) (hbytes : queue₁.bytes = queue.bytes ++ bytes)
    (h : Applied connection batch size last queue₁ rest r log) :
    Applied connection batch size last queue (.input bytes :: rest) r log := by
  rcases r with error | ⟨_ | _, queue'⟩ <;> try trivial
  obtain ⟨⟨last', hlog, hiff⟩, hle⟩ := h
  rw [hbytes, List.length_append] at hle
  refine ⟨⟨last', hlog, ?_⟩, by omega⟩
  rw [HarmlessRecords, if_pos hfits]
  rcases eq_or_ne bytes [] with rfl | hne
  · obtain rfl : queue = queue₁ := (Prod.mk.inj ((push_nil queue).symm.trans hpush)).1
    rw [hiff]
    exact (and_iff_right rfl).symm
  · have hpos : 0 < bytes.length := List.length_pos_iff.mpr hne
    constructor
    · rintro ⟨-, rfl⟩
      omega
    · exact fun h => absurd h.1 hne

theorem wp_setsWindow {rows columns : UInt16} (hlog : Handling connection batch size last log) :
    logged.wp () (setWindowSize rows columns).run
      (fun r log' => r = .ok () → Handling connection batch size (rows, columns) log') log := by
  unfold setWindowSize validateDimensions
  split
  · refine wp_logged fun r => ?_
    rintro rfl
    exact hlog.resize
  · intro h
    cases h

/-- Continue after a size was set; a failure ends the loop. -/
theorem wp_afterWindow {α : Type} {rows columns : UInt16} {f : Unit → Io α}
    {Q : Except IoError α → RunnerLog → Prop} (hlog : Handling connection batch size last log)
    (herror : ∀ error log', Q (.error error) log')
    (hf : ∀ log', Handling connection batch size (rows, columns) log' → logged.wp () (f ()).run Q log') :
    logged.wp () (setWindowSize rows columns >>= f).run Q log :=
  wp_seq (fun r log' => r = .ok () → Handling connection batch size (rows, columns) log')
    (wp_setsWindow hlog) (fun _ log' h => hf log' (h rfl)) fun error log' _ => herror error log'

theorem wp_applyRecords {stream : Fd} {queue : ByteQueue} {records : List Record}
    (hlog : Handling connection batch size last log) :
    logged.wp () (applyActiveRecords stream queue records).run
      (Applied connection batch size last queue records) log := by
  induction records generalizing queue last log with
  | nil => trivial
  | cons record rest ih =>
    cases record with
    | input bytes =>
      unfold applyActiveRecords
      obtain ⟨hfits, queue₁, hpush, hbytes⟩ | ⟨hfits, hpush⟩ := push_cases queue bytes
      · simp only [hpush]
        refine wp_lift_bind.mpr (wp_logged fun r => ?_)
        have hlog' := hlog.idle (idle_note (.inputAccepted stream bytes)) r
        exact wp_mono (fun _ _ => applied_input hfits hpush hbytes) (ih hlog')
      · simp only [hpush]
        refine applied_rejected hlog ?_
        rw [HarmlessRecords, if_neg hfits]
    | resize rows columns =>
      unfold applyActiveRecords
      refine wp_afterWindow hlog (fun _ _ => trivial) fun log' hlog' => ?_
      refine wp_mono (fun r log'' h => ?_) (ih hlog')
      rcases r with error | ⟨_ | _, queue'⟩ <;> exact h
    | attach rows columns => exact applied_rejected hlog Iff.rfl
    | output bytes => exact applied_rejected hlog Iff.rfl
    | exit status => exact applied_rejected hlog Iff.rfl
    | stop => exact applied_rejected hlog Iff.rfl

end batch

/-! ## Handling the candidate -/

section candidate

variable {log : RunnerLog} {size : UInt16 × UInt16} (ctx : RunnerContext)

/-- A batch that does not activate its connection leaves nothing exactly when it is harmless. -/
def Rejects (connection : Connection) (st : LoopState) (size : UInt16 × UInt16) :
    Except IoError (Bool × LoopState) → RunnerLog → Prop
  | .ok (false, st'), log =>
    (∃ e ∈ log, Activates connection.stream e) ∨
      (Unaffected size st st' log ↔ Harmless size st.ptyInput (batch connection log))
  | _, _ => True

/-- What happened stays in the log. -/
theorem wp_activated {α : Type} {fd : Fd} (p : Prog α) (h : ∃ e ∈ log, Activates fd e) :
    logged.wp () p (fun _ log' => ∃ e ∈ log', Activates fd e) log := by
  obtain ⟨e, he, hactivates⟩ := h
  exact wp_mono (fun _ _ h => ⟨e, h.2.subset he, hactivates⟩) (wp_extends (wp_anything p))

/-- Nothing was applied. -/
theorem rejects_untouched {connection : Connection} {records : List Record} {st st' : LoopState}
    {r : Bool} (hlog : Handling connection records size size log)
    (hptyInput : st'.ptyInput = st.ptyInput) (hactive : st'.active = st.active)
    (htail : st'.tail = st.tail) (hharmless : Harmless size st.ptyInput records) :
    Rejects connection st size (.ok (r, st')) log := by
  cases r with
  | true => trivial
  | false =>
    refine .inr (iff_of_true ⟨hlog.window, hptyInput, hactive, htail, hlog.files⟩ ?_)
    rw [hlog.batch]
    exact hharmless

variable {connection connection' : Connection} {records : List Record} {st st' : LoopState}

theorem wp_handlingEvent (st : LoopState) (event : String)
    (hlog : Handling connection records size size log) :
    logged.wp () (ctx.event st event)
      (fun st' log' => (∃ trace, st' = { st with trace }) ∧
        Handling connection records size size log') log :=
  wp_handlingTrace
    (Program.Within.bind (calls_traceEvent st.trace event) fun trace _ => ⟨trace, rfl⟩) hlog

theorem wp_activateRejects {rows columns : UInt16} {remaining : List Record}
    (hstream : connection'.stream = connection.stream)
    (hlog : Handling connection (.attach rows columns :: remaining) size size log)
    (hptyInput : st'.ptyInput = st.ptyInput) (hactive : st'.active = st.active)
    (htail : st'.tail = st.tail) :
    logged.wp () (ctx.activate connection' rows columns remaining st').run
      (fun r log' => ∀ st'', r = .ok st'' → Rejects connection st size (.ok (false, st'')) log')
      log := by
  unfold RunnerContext.activate
  refine wp_afterWindow hlog (by rintro _ _ _ ⟨⟩) fun log hlog => ?_
  cases hreplay : enqueueReplay connection' st'.tail with
  | error error =>
    rintro _ ⟨⟩
  | ok replayed =>
    have hsame : replayed.stream = connection.stream :=
      (enqueueReplay_same hreplay).stream.trans hstream
    refine wp_io_bind.mpr ?_
    rw [run_ask, wp_ret, onOk_ok]
    refine wp_io_bind.mpr (wp_mono ?_ (wp_applyRecords hlog))
    rintro (error | ⟨_ | _, ptyInput⟩) log happlied
    · rintro _ ⟨⟩
    · obtain ⟨⟨last, hlog, hiff⟩, -⟩ := happlied
      refine wp_lift_bind.mpr (wp_logged fun r => ?_)
      have hclosed := hlog.idle (idle_close replayed.stream) r
      rintro _ ⟨⟩
      refine .inr ?_
      rw [hclosed.batch, Harmless, ← hptyInput, ← hiff]
      constructor
      · intro h
        exact ⟨hclosed.window.symm.trans h.window, h.ptyInput.trans hptyInput.symm⟩
      · rintro ⟨rfl, rfl⟩
        exact ⟨hclosed.window, hptyInput, hactive, htail, hclosed.files⟩
    · refine wp_io_bind.mpr (wp_mono ?_ (wp_anything _))
      rintro (error | st₁) log -
      · rintro _ ⟨⟩
      refine wp_lift_bind.mpr (wp_mono ?_ (wp_anything _))
      rintro st₂ log -
      refine wp_lift_bind.mpr (wp_logged fun r => ?_)
      refine wp_mono ?_ (wp_activated _ ⟨_, List.mem_cons_self, congrArg _ (congrArg _ hsame)⟩)
      intro r log hactivated st'' _
      exact .inl hactivated

/-- What a read of the candidate comes to. -/
def Read (connection : Connection) (size : UInt16 × UInt16) :
    Except IoError (List Record × Connection) → RunnerLog → Prop
  | .ok (records, connection'), log =>
    connection'.stream = connection.stream ∧ Handling connection records size size log
  | .error _, log => Handling connection [] size size log

theorem wp_readCandidate (connection : Connection) (size : UInt16 × UInt16) :
    logged.wp () (readRecords connection).run (Read connection size) [] := by
  unfold readRecords
  dsimp only
  split
  · exact handling_nil
  · refine wp_attempt_bind.mpr (wp_logged fun r => ?_)
    have hlog := handling_read connection size connection.stream
      (min connection.decoder.remainingCapacity ioChunkBytes) r
    rcases r with error | (_ | ⟨byte, bytes⟩)
    · by_cases hblock : error.kind = .wouldBlock ∨ error.kind = .interrupted
      · simp only [if_pos hblock]
        simp only [batchOf, Connection.receive, if_pos hblock] at hlog
        exact ⟨rfl, hlog⟩
      · simp only [if_neg hblock]
        simp only [batchOf, Connection.receive, if_neg hblock] at hlog
        exact hlog
    · exact hlog
    · simp only [batchOf, Connection.receive] at hlog
      cases hpush : connection.decoder.push (byte :: bytes) with
      | error error =>
        simp only [hpush] at hlog ⊢
        exact hlog
      | ok pushed =>
        cases hdrain : pushed.drain with
        | error error =>
          simp only [hpush, hdrain] at hlog ⊢
          exact hlog
        | ok result =>
          simp only [hpush, hdrain] at hlog ⊢
          exact ⟨rfl, hlog⟩

/-- A candidate that is given up: its connection is dropped. -/
theorem wp_dropRejects {r : Bool} {st' : LoopState}
    (hlog : Handling connection records size size log)
    (hptyInput : st'.ptyInput = st.ptyInput) (hactive : st'.active = st.active)
    (htail : st'.tail = st.tail) (hharmless : Harmless size st.ptyInput records) :
    logged.wp () (dropCandidate st')
      (fun st'' log' => Rejects connection st size (.ok (r, st'')) log') log := by
  unfold dropCandidate
  refine wp_bind.mpr ?_
  cases st'.candidate with
  | none => exact rejects_untouched hlog hptyInput hactive htail hharmless
  | some candidate =>
    refine wp_logged fun r => ?_
    exact rejects_untouched (hlog.idle (idle_close candidate.stream) r) hptyInput hactive htail
      hharmless

theorem wp_handleRejects (connection : Connection) (st : LoopState) (size : UInt16 × UInt16) :
    logged.wp () (ctx.handleCandidate connection st).run (Rejects connection st size) [] := by
  unfold RunnerContext.handleCandidate
  refine wp_attempt_bind.mpr (wp_mono ?_ (wp_readCandidate connection size))
  rintro (error | ⟨records, connection'⟩) log hread
  · refine wp_lift_bind.mpr (wp_mono ?_ (wp_handlingTrace (within_ioErrorEvent ctx _ _) hread))
    rintro _ log ⟨⟨trace, rfl⟩, hlog⟩
    exact wp_lift_bind.mpr (wp_dropRejects hlog rfl rfl rfl trivial)
  obtain ⟨hstream, hlog⟩ := hread
  have hdismiss : (∀ rows columns rest, records ≠ .attach rows columns :: rest) →
      logged.wp () (ctx.dismissCandidate st).run (Rejects connection st size) log := by
    intro hattach
    have hharmless : Harmless size st.ptyInput records := by
      unfold Harmless
      split
      · exact absurd rfl (hattach _ _ _)
      · trivial
    refine wp_lift_bind.mpr (wp_mono ?_ (wp_handlingEvent ctx st _ hlog))
    rintro _ log ⟨⟨trace, rfl⟩, hlog⟩
    exact wp_lift_bind.mpr (wp_dropRejects hlog rfl rfl rfl hharmless)
  rcases records with _ | ⟨record, rest⟩
  · exact rejects_untouched hlog rfl rfl rfl trivial
  · cases record with
    | attach rows columns =>
      refine wp_seq (fun r log' => ∀ st'', r = .ok st'' →
        Rejects connection st size (.ok (false, st'')) log') ?_ ?_ fun _ _ _ => trivial
      · exact wp_activateRejects ctx hstream hlog rfl rfl rfl
      · exact fun st' log h => h st' rfl
    | stop =>
      rcases rest with _ | ⟨next, rest⟩
      · refine wp_lift_bind.mpr (wp_mono ?_ (wp_anything _))
        rintro st' log -
        refine wp_lift_bind.mpr (wp_mono ?_ (wp_anything _))
        rintro st' log -
        exact wp_lift_bind.mpr (wp_logged fun _ => trivial)
      · exact hdismiss (by simp)
    | input => exact hdismiss (by simp)
    | output => exact hdismiss (by simp)
    | resize => exact hdismiss (by simp)
    | exit => exact hdismiss (by simp)

end candidate

/-! ## The result -/

/-- **A candidate that is not activated leaves nothing behind exactly when its batch is harmless**:
when the batch has no `Attach` at its head, or when, up to the record that is rejected, it takes no
input and the last size it sets is the one before. -/
theorem rejection_unaffected (ctx : RunnerContext) (connection : Connection) (st st' : LoopState)
    (size : UInt16 × UInt16) {log : RunnerLog}
    (hrun : Runs anyAnswer (ctx.handleCandidate connection st).run log (.ret (.ok (false, st'))))
    (hrejected : ∀ e ∈ log, ¬ Activates connection.stream e) :
    Unaffected size st st' log ↔ Harmless size st.ptyInput (batch connection log) := by
  obtain ⟨-, hends⟩ := log_sound trivial (wp_handleRejects ctx connection st size) hrun
  rcases hends _ rfl with ⟨e, he, hactivates⟩ | hiff
  · exact absurd hactivates (hrejected e he)
  · exact hiff

/-- A candidate asks for a window of 24 rows and 80 columns, and then breaks the protocol. -/
def sameSizeScene : Scene where
  reads := [.ok (writeRecord (.attach 24 80) ++ writeRecord .stop)]

/-- A candidate asks for a window of 10 rows and 20 columns, types, and then breaks the protocol. -/
def intrudingScene : Scene where
  reads := [.ok (writeRecord (.attach 10 20) ++ writeRecord (.input (ascii "x")) ++
    writeRecord .stop)]

theorem allowed_anyAnswer (log : RunnerLog) : Allowed anyAnswer log := by
  induction log with
  | nil => trivial
  | cons e log ih => exact ⟨trivial, ih⟩

theorem rejection_unaffected_same : ∃ log st',
    Runs anyAnswer (exampleContext.handleCandidate (.new 5) (.start none)).run log
      (.ret (.ok (false, st'))) ∧ Unaffected (24, 80) (.start none) st' log := by
  have hrun := runs_play (A := anyAnswer) (o := Scene.answer) (n := 8) (s := sameSizeScene)
    (p := (exampleContext.handleCandidate (.new 5) (.start none)).run) (allowed_anyAnswer _)
  obtain ⟨r, hr, hstop⟩ := Program.exists_of_returned
    (f := fun r => r.toOption.any fun result => !result.1)
    (p := (play Scene.answer 8 sameSizeScene []
      (exampleContext.handleCandidate (.new 5) (.start none)).run).2) (by decide +kernel)
  rcases r with error | ⟨_ | _, st'⟩
  · cases hstop
  · rw [hr] at hrun
    refine ⟨_, st', hrun, ?_⟩
    exact (rejection_unaffected _ _ _ _ _ hrun (by decide +kernel)).mpr (by decide +kernel)
  · cases hstop

/-- A rejected candidate can change the window and the input queue. -/
theorem rejection_affects : ∃ log st',
    Runs anyAnswer (exampleContext.handleCandidate (.new 5) (.start none)).run log
      (.ret (.ok (false, st'))) ∧ (∀ e ∈ log, ¬ Activates 5 e) ∧
        windowAfter (24, 80) log = (10, 20) ∧ st'.ptyInput.bytes = ascii "x" ∧
          ¬ Unaffected (24, 80) (.start none) st' log := by
  have hrun := runs_play (A := anyAnswer) (o := Scene.answer) (n := 8) (s := intrudingScene)
    (p := (exampleContext.handleCandidate (.new 5) (.start none)).run) (allowed_anyAnswer _)
  obtain ⟨r, hr, hstop⟩ := Program.exists_of_returned
    (f := fun r => r.toOption.any fun result => !result.1 && result.2.ptyInput.bytes = ascii "x")
    (p := (play Scene.answer 8 intrudingScene []
      (exampleContext.handleCandidate (.new 5) (.start none)).run).2) (by decide +kernel)
  rcases r with error | ⟨_ | _, st'⟩
  · cases hstop
  · rw [hr] at hrun
    refine ⟨_, st', hrun, by decide +kernel, by decide +kernel, of_decide_eq_true hstop, ?_⟩
    intro hunaffected
    exact absurd hunaffected.window (by decide +kernel)
  · cases hstop

end AfkCli
