import AfkCli.Farewell
import AfkCli.Hoare

/-!
# An attachment as a relay

Between the terminal and the runner an attachment is a relay with two directions. What it sends is
the encoding of an `Attach`, and of the input and the sizes that it takes from its terminal, in
order. What it shows is the output that the bytes it has received decode to, in order. The relay is
a monitor; the attachment's loop, with its queue and its decoder, refines it.

## Main definitions

* `Relay`: what has gone over each direction
* `Relay.Allowed`, `Relay.learn`: what an attachment may do, and what it has done
* `relaying`: the monitor
* `Relay.Linked`: the queue and the decoder of the loop, as the relay sees them

## Main results

* `attachment_relays`: every run of an attachment is one of the relay, and ends with the terminal
  restored and the stream closed
-/

namespace AfkCli

open Interaction

/-- What an attachment has sent and received, taken from its terminal and shown. -/
structure Relay where
  /-- the size of the terminal before the relay starts -/
  size : UInt16 × UInt16
  raw : Bool
  started : Bool
  /-- the records to send, the ones that were sent included -/
  outgoing : List Record
  sent : Bytes
  received : Bytes
  shown : Bytes
  inputEnded : Bool
  signalled : Bool
  /-- the runner has closed the connection -/
  gone : Bool
  closed : Bool

/-- The output at the front of the records. -/
def outputs : List Record → Bytes
  | .output bytes :: records => bytes ++ outputs records
  | _ => []

theorem outputs_append (chunks : List Bytes) (records : List Record) :
    outputs (chunks.map .output ++ records) = chunks.flatten ++ outputs records := by
  induction chunks with
  | nil => rfl
  | cons chunk chunks ih =>
    rw [List.map_cons, List.cons_append, outputs, ih, List.flatten_cons, List.append_assoc]

/-- What was decoded stays decoded. -/
theorem outputs_mono {records records' : List Record} (h : records <+: records') :
    outputs records <+: outputs records' := by
  obtain ⟨more, rfl⟩ := h
  induction records with
  | nil => exact List.nil_prefix
  | cons record records ih =>
    cases record with
    | output bytes => exact (List.prefix_append_right_inj _).mpr ih
    | attach rows columns => exact List.nil_prefix
    | resize rows columns => exact List.nil_prefix
    | input bytes => exact List.nil_prefix
    | exit status => exact List.nil_prefix
    | stop => exact List.nil_prefix

namespace Relay

/-! ## The monitor -/

/-- The records that were received. -/
def decoded (s : Relay) : List Record := (ipcFormat.drain s.received).1

/-- The bytes of the records to send. -/
def encoded (s : Relay) : Bytes := s.outgoing.flatMap writeRecord

def start : Relay where
  size := (24, 80)
  raw := false
  started := false
  outgoing := []
  sent := []
  received := []
  shown := []
  inputEnded := false
  signalled := false
  gone := false
  closed := false

/-- What an attachment may do now. It uses its stream and takes input only while its terminal is
raw, it sends what it has to send and has not sent, and shows what it has received and has not
shown. -/
def Allowed (stream : Fd) (s : Relay) : Call → Prop
  | .terminal .enterRaw => s.raw = false ∧ s.closed = false
  | .terminal .leaveRaw => s.raw = true
  | .terminal .registerSignals => s.raw = true ∧ s.started = false
  | .terminal .tryRecv => s.raw = true ∧ s.started = true ∧ s.inputEnded = false
  | .terminal (.pollStream fd _) => fd = stream ∧ s.raw = true
  | .terminal (.writeOutput bytes) => s.raw = true ∧ s.shown ++ bytes <+: outputs s.decoded
  | .terminal _ => s.closed = false
  | .socket (.setNonblocking fd on) => fd = stream ∧ on = true ∧ s.closed = false
  | .socket (.write fd bytes) =>
    fd = stream ∧ s.raw = true ∧ s.started = true ∧ s.sent ++ bytes = s.encoded
  | .socket (.read fd _) => fd = stream ∧ s.raw = true ∧ s.started = true
  | .socket (.close fd) => fd = stream ∧ s.raw = false ∧ s.closed = false
  | .process (.now site) => site = .traceWrite
  | .file (.writeAll site ..) => site = .traceWrite
  | _ => False

instance (stream : Fd) (s : Relay) : DecidablePred (Allowed stream s) := fun op => by
  unfold Allowed
  split <;> infer_instance

/-- The terminal's size, when it is one that AFK takes. -/
def validSize : Except IoError (UInt16 × UInt16) → Option (UInt16 × UInt16)
  | .ok (rows, columns) =>
    if (1 ≤ rows ∧ rows ≤ maxTerminalDimension) ∧ (1 ≤ columns ∧ columns ≤ maxTerminalDimension)
    then some (rows, columns) else none
  | .error _ => none

/-- What an attachment has done. -/
def learn (s : Relay) : (op : Call) → op.Answer → Relay
  | .terminal .windowSize, r =>
    if s.started then
      { s with outgoing := s.outgoing ++ (validSize r).toList.map fun size => .resize size.1 size.2 }
    else { s with size := (validSize r).getD (24, 80) }
  | .terminal .enterRaw, .ok () => { s with raw := true }
  | .terminal .leaveRaw, _ => { s with raw := false }
  | .terminal .registerSignals, .ok () =>
    { s with started := true, outgoing := [.attach s.size.1 s.size.2] }
  | .terminal .hangup, r | .terminal .terminate, r =>
    { s with signalled := s.signalled || r }
  | .terminal .tryRecv, .bytes bytes => { s with outgoing := s.outgoing ++ [.input bytes] }
  | .terminal .tryRecv, .closed | .terminal .tryRecv, .disconnected =>
    { s with inputEnded := true }
  | .terminal (.writeOutput bytes), .ok () => { s with shown := s.shown ++ bytes }
  | .socket (.write _ bytes), .ok n => { s with sent := s.sent ++ bytes.take n }
  | .socket (.write ..), .error error => { s with gone := s.gone || attachmentClosed error }
  | .socket (.read ..), .ok bytes =>
    { s with received := s.received ++ bytes, gone := s.gone || bytes.isEmpty }
  | .socket (.read ..), .error error => { s with gone := s.gone || attachmentClosed error }
  | .socket (.close _), _ => { s with closed := true }
  | _, _ => s

def next (stream : Fd) (s : Relay) (op : Call) (r : op.Answer) : Option Relay :=
  if s.Allowed stream op then some (s.learn op r) else none

end Relay

/-- The monitor of an attachment on `stream`. -/
def relaying (stream : Fd) : Monitor Call Call.Answer Relay where
  start := .start
  next s op r := s.next stream op r

namespace Relay

/-- The runner has reported an exit, and everything before it was shown. -/
def Told (status : ProcessExit) (s : Relay) : Prop :=
  ∃ (chunks : List Bytes) (rest : List Record),
    s.decoded = chunks.map .output ++ .exit status :: rest ∧ chunks.flatten = s.shown

/-- Why an attachment ends well: it was told the exit; or it ends without it, after a signal, after
the runner has closed the connection, or once its input has ended and everything was sent. -/
def Ends (status : ProcessExit) (s : Relay) : Prop :=
  s.Told status ∨ status = .code 0 ∧
    (s.signalled = true ∨ s.gone = true ∨ s.inputEnded = true ∧ s.sent = s.encoded)

/-- How an attachment ends. -/
structure Parted (r : Except IoError ProcessExit) (s : Relay) : Prop where
  restored : s.raw = false
  closed : s.closed = true
  ends : ∀ status, r = .ok status → s.Ends status

/-! ## The loop -/

/-- From the state `s`, a part of the attachment does what a relay does. -/
abbrev Relays {α : Type} (stream : Fd) (p : Prog α) (Q : α → Relay → Prop) (s : Relay) : Prop :=
  (relaying stream).Follows (fun _ _ _ => True) p Q s

/-- The queue holds what was not sent; the decoder holds what is not a record yet, and everything
before it was shown. -/
structure Linked (s : Relay) (queue : ByteQueue) (decoder : Decoder) : Prop where
  raw : s.raw = true
  open_ : s.closed = false
  started : s.started = true
  outgoing : s.sent ++ queue.bytes = s.encoded
  incoming : ∃ chunks : List Bytes,
    ipcFormat.drain s.received = (chunks.map .output, .ok decoder.buffer) ∧ chunks.flatten = s.shown

/-- The relay stands open: its terminal is raw, and its stream is not closed. -/
def Open (s : Relay) : Prop := s.raw = true ∧ s.closed = false

section rules

variable {stream : Fd} {s : Relay} {waiting : ByteQueue} {decoder : Decoder} {self : Self}

theorem Linked.isOpen (h : s.Linked waiting decoder) : s.Open := ⟨h.raw, h.open_⟩

theorem relays_call {op : Call} (h : s.Allowed stream op) :
    Relays stream (Program.perform op) (fun r s' => s' = s.learn op r) s :=
  Monitor.follows_perform fun _ _ => ⟨_, if_pos h, rfl⟩

/-- A trace's lines are nothing to the relay. -/
theorem relays_trace {α : Type} {p : Prog α} {q : α → Prop}
    (hp : p.Within (fun _ _ => True) Traces q) : Relays stream p (fun _ s' => s' = s) s := by
  refine (Monitor.follows_of_within (P := (· = s)) hp ?_ rfl).mono fun _ _ h => h.2
  rintro op r s hop rfl -
  refine ⟨s, ?_, rfl⟩
  unfold Traces at hop
  split at hop
  · exact if_pos hop
  · exact if_pos hop
  · exact hop.elim

theorem takesTrace (trace : Option Trace) : TakesTrace Traces trace := ⟨rfl, fun _ _ _ => rfl⟩

theorem relays_event (trace : Option Trace) (event : String) :
    Relays stream (traceEvent self trace event) (fun _ s' => s' = s) s :=
  relays_trace (within_traceEvent (takesTrace trace) event)

theorem relays_error (trace : Option Trace) (event : String) (error : IoError) :
    Relays stream (traceIoError self trace event error) (fun _ s' => s' = s) s :=
  relays_trace (within_traceIoError (takesTrace trace) event error)

/-- An error is traced, and passed on. -/
theorem relays_fail {α : Type} {trace : Option Trace} {event : String} {error : IoError}
    {Q : Except IoError α → Relay → Prop} (h : Q (.error error) s) :
    Relays stream (do
      let _ ← traceIoError self trace event error
      throw error : Io α).run Q s := by
  refine follows_lift_bind.mpr ((relays_error trace event error).mono ?_)
  rintro _ _ rfl
  exact h

/-! ## Sending -/

/-- A record that was queued is sent after what waits. -/
theorem queueRecord_ok {queue queue' : ByteQueue} {record : Record}
    (h : queueRecord queue record = .ok queue') :
    queue'.bytes = queue.bytes ++ writeRecord record := by
  unfold queueRecord at h
  split at h
  · cases h
  · cases hencode : encodeRecord record with
    | error error =>
      rw [hencode] at h
      cases h
    | ok encoded =>
      rw [hencode] at h
      simp only [bind, Except.bind] at h
      obtain rfl := encodeRecord_ok hencode
      rcases hpush : queue.push (writeRecord record) with ⟨pushed, _ | _⟩
      · rw [hpush] at h
        cases h
      · rw [hpush] at h
        obtain rfl := Except.ok.inj h
        have htaken : (queue.push (writeRecord record)).2 = true := by rw [hpush]
        have hbytes := ByteQueue.push_true htaken
        rwa [hpush] at hbytes

/-- A record that is taken is to be sent once it is queued. -/
theorem Linked.queue {queued : ByteQueue} {record : Record} (h : s.Linked waiting decoder)
    (hqueue : queueRecord waiting record = .ok queued) :
    ({ s with outgoing := s.outgoing ++ [record] } : Relay).Linked queued decoder := by
  refine ⟨h.raw, h.open_, h.started, ?_, h.incoming⟩
  show s.sent ++ queued.bytes = (s.outgoing ++ [record]).flatMap writeRecord
  rw [queueRecord_ok hqueue, ← List.append_assoc, h.outgoing, List.flatMap_append, encoded]
  simp

theorem relays_queueRecord {α : Type} {record : Record} {f : ByteQueue → Io α}
    {Q : Except IoError α → Relay → Prop}
    (hok : ∀ queued, queueRecord waiting record = .ok queued → Relays stream (f queued).run Q s)
    (herror : ∀ error, Q (.error error) s) :
    Relays stream (ask (.ret (queueRecord waiting record)) >>= f).run Q s := by
  refine follows_seq (fun r s' => r = queueRecord waiting record ∧ s' = s)
    (Monitor.follows_ret ⟨rfl, rfl⟩) ?_ ?_
  · rintro queued _ ⟨hqueue, rfl⟩
    exact hok queued hqueue.symm
  · rintro error _ ⟨-, rfl⟩
    exact herror error

/-- The state of the loop, with its queue and its decoder. -/
def Linking (st : AttachState) (s : Relay) : Prop :=
  s.Linked st.socketOutput st.decoder ∧ s.inputEnded = st.stdinClosed

/-- The size that was read is valid. -/
theorem relays_windowSize (hopen : s.closed = false) :
    Relays stream windowSize.run (fun r s' => ∃ answer,
      s' = s.learn (.terminal .windowSize) answer ∧ r.toOption = validSize answer) s := by
  have hcall : s.Allowed stream (.terminal .windowSize) := hopen
  unfold windowSize
  refine follows_seq _ (relays_call hcall) ?_ ?_
  · rintro ⟨rows, columns⟩ _ rfl
    refine follows_io_bind.mpr ?_
    unfold validateDimensions
    split
    · rename_i hvalid
      exact Monitor.follows_ret ⟨.ok (rows, columns), rfl, (if_pos hvalid).symm⟩
    · rename_i hinvalid
      exact Monitor.follows_ret ⟨.ok (rows, columns), rfl, (if_neg hinvalid).symm⟩
  · rintro error _ rfl
    exact ⟨.error error, rfl, rfl⟩

/-- What a step of the loop comes to. -/
def Stepped (r : Except IoError AttachState) (s : Relay) : Prop :=
  match r with
  | .ok st => Linking st s
  | .error _ => s.Open

theorem relays_queueResize {st : AttachState} (h : Linking st s) :
    Relays stream (queueResize self st).run Stepped s := by
  unfold queueResize
  refine follows_attempt_bind.mpr ((relays_windowSize h.1.open_).mono ?_)
  rintro (error | ⟨rows, columns⟩) _ ⟨answer, rfl, hanswer⟩
  · have hsame : s.learn (.terminal .windowSize) answer = s := by
      rw [learn, if_pos h.1.started, ← hanswer]
      simp [Except.toOption]
    rw [hsame]
    refine follows_lift_bind.mpr ((relays_event _ _).mono ?_)
    rintro _ _ rfl
    exact h
  · have hlearnt : s.learn (.terminal .windowSize) answer =
        { s with outgoing := s.outgoing ++ [.resize rows columns] } := by
      rw [learn, if_pos h.1.started, ← hanswer]
      rfl
    rw [hlearnt]
    refine relays_queueRecord (fun queued hqueue => ?_) fun error => h.1.isOpen
    refine follows_lift_bind.mpr ((relays_event _ _).mono ?_)
    rintro _ _ rfl
    exact ⟨h.1.queue hqueue, h.2⟩

/-- What taking input comes to. -/
def Polled (decoder : Decoder) (r : Except IoError (Bool × ByteQueue)) (s : Relay) : Prop :=
  match r with
  | .ok polled => s.Linked polled.2 decoder ∧ s.inputEnded = polled.1
  | .error _ => s.Open

theorem relays_pollInput {st : AttachState} (h : Linking st s) :
    Relays stream (pollInput self st).run Stepped s := by
  unfold pollInput
  split
  · exact Monitor.follows_ret h
  · rename_i hopen
    have hcall : s.Allowed stream (.terminal .tryRecv) :=
      ⟨h.1.raw, h.1.started, h.2.trans (Bool.eq_false_iff.mpr hopen)⟩
    refine follows_attempt_bind.mpr (Monitor.Follows.mono (Q := Polled st.decoder) ?_ ?_)
    · unfold receiveInput
      refine follows_lift_bind.mpr ((relays_call hcall).mono ?_)
      rintro event _ rfl
      cases event with
      | bytes bytes =>
        exact relays_queueRecord (fun queued hqueue => ⟨h.1.queue hqueue, hcall.2.2⟩)
          fun error => h.1.isOpen
      | closed => exact Monitor.follows_ret ⟨⟨h.1.raw, h.1.open_, h.1.started, h.1.outgoing,
          h.1.incoming⟩, rfl⟩
      | disconnected => exact Monitor.follows_ret ⟨⟨h.1.raw, h.1.open_, h.1.started, h.1.outgoing,
          h.1.incoming⟩, rfl⟩
      | failed error => exact Monitor.follows_ret h.1.isOpen
      | empty => exact Monitor.follows_ret ⟨h.1, hcall.2.2⟩
    · rintro (error | ⟨closed, queue⟩) s hs
      · exact relays_fail hs
      · refine follows_seq (fun _ s' => s' = s) ?_ ?_ ?_
        · split
          · exact follows_lift.mpr (relays_event _ _)
          · exact Monitor.follows_ret rfl
        · rintro _ _ rfl
          exact Monitor.follows_ret hs
        · rintro error _ rfl
          exact hs.1.isOpen

/-- What flushing comes to. -/
def Flushed (decoder : Decoder) (r : ByteQueue × Except IoError Unit) (s : Relay) : Prop :=
  s.Linked r.1 decoder ∧ ∀ error, r.2 = .error error → attachmentClosed error = true → s.gone = true

theorem relays_flush (rounds : Nat) (h : s.Linked waiting decoder) :
    Relays stream (flushQueue (writeStream stream) rounds waiting)
      (fun r s' => Flushed decoder r s' ∧ s'.inputEnded = s.inputEnded) s := by
  induction rounds generalizing waiting s with
  | zero => exact Monitor.follows_spin
  | succ rounds ih =>
    rw [flushQueue]
    split
    · exact Monitor.follows_ret ⟨⟨h, fun _ he => by cases he⟩, rfl⟩
    · have hcall : s.Allowed stream (.socket (.write stream waiting.bytes)) :=
        ⟨rfl, h.raw, h.started, h.outgoing⟩
      refine Monitor.follows_bind.mpr ((relays_call hcall).mono ?_)
      rintro (error | n) _ rfl
      · have herror : (s.learn (.socket (.write stream waiting.bytes)) (.error error)).Linked waiting
            decoder := ⟨h.raw, h.open_, h.started, h.outgoing, h.incoming⟩
        dsimp only
        split
        · exact Monitor.follows_ret ⟨⟨herror, fun _ he => by cases he⟩, rfl⟩
        · split
          · exact ih herror
          · refine Monitor.follows_ret ⟨⟨herror, fun error' he hclosed => ?_⟩, rfl⟩
            obtain rfl := Except.error.inj he
            show (s.gone || attachmentClosed error) = true
            rw [hclosed, Bool.or_true]
      · have hwritten : (s.learn (.socket (.write stream waiting.bytes)) (.ok n)).Linked
            (waiting.written n) decoder := by
          refine ⟨h.raw, h.open_, h.started, ?_, h.incoming⟩
          show s.sent ++ waiting.bytes.take n ++ waiting.bytes.drop n = s.encoded
          rw [List.append_assoc, List.take_append_drop]
          exact h.outgoing
        cases n with
        | zero =>
          refine Monitor.follows_ret ⟨⟨hwritten, fun error he hclosed => ?_⟩, rfl⟩
          obtain rfl := Except.error.inj he
          cases hclosed
        | succ n => exact ih hwritten

/-! ## Receiving -/

/-- The records are about to be shown, and everything before them was. -/
structure Pending (s : Relay) (waiting : ByteQueue) (decoder : Decoder) (records : List Record) :
    Prop where
  raw : s.raw = true
  open_ : s.closed = false
  started : s.started = true
  outgoing : s.sent ++ waiting.bytes = s.encoded
  incoming : ∃ chunks : List Bytes,
    ipcFormat.drain s.received = (chunks.map .output ++ records, .ok decoder.buffer) ∧
      chunks.flatten = s.shown

theorem Pending.linked (h : s.Pending waiting decoder []) : s.Linked waiting decoder := by
  obtain ⟨chunks, hdrain, hshown⟩ := h.incoming
  exact ⟨h.raw, h.open_, h.started, h.outgoing, chunks, by rw [hdrain, List.append_nil], hshown⟩

/-- What was read goes on from what the decoder holds. -/
theorem Linked.read {bytes : Bytes} {pushed read : Decoder} {records : List Record}
    (h : s.Linked waiting decoder) (hpushed : pushed.buffer = decoder.buffer ++ bytes)
    (hdrain : pushed.drain = .ok (records, read)) (gone : Bool) :
    ({ s with received := s.received ++ bytes, gone } : Relay).Pending waiting read records := by
  obtain ⟨chunks, hbefore, hshown⟩ := h.incoming
  refine ⟨h.raw, h.open_, h.started, h.outgoing, chunks, ?_, hshown⟩
  show ipcFormat.drain (s.received ++ bytes) = _
  rw [Format.drain_append, hbefore]
  dsimp only
  rw [← hpushed, Decoder.drain_ok.mp hdrain]

/-- What a read comes to. -/
def Replied (waiting : ByteQueue) (r : Except IoError (Option (List Record × Decoder)))
    (s : Relay) : Prop :=
  match r with
  | .ok (some (records, decoder)) => s.Pending waiting decoder records
  | .ok none => s.Open ∧ s.gone = true
  | .error _ => s.Open

theorem relays_readReplies (h : s.Linked waiting decoder) :
    Relays stream (readReplies stream decoder).run
      (fun r s' => Replied waiting r s' ∧ s'.inputEnded = s.inputEnded) s := by
  have hcall : ∀ capacity, s.Allowed stream (.socket (.read stream capacity)) :=
    fun _ => ⟨rfl, h.raw, h.started⟩
  unfold readReplies
  dsimp only
  split
  · exact Monitor.follows_ret ⟨h.isOpen, rfl⟩
  · refine follows_attempt_bind.mpr ((relays_call (hcall _)).mono ?_)
    rintro (error | (_ | ⟨byte, bytes⟩)) _ rfl
    · dsimp only
      split
      · obtain ⟨chunks, hdrain, hshown⟩ := h.incoming
        exact Monitor.follows_ret ⟨⟨h.raw, h.open_, h.started, h.outgoing, chunks,
          by rw [List.append_nil]; exact hdrain, hshown⟩, rfl⟩
      · split
        · rename_i hclosed
          refine Monitor.follows_ret ⟨⟨h.isOpen, ?_⟩, rfl⟩
          show (s.gone || attachmentClosed error) = true
          rw [hclosed, Bool.or_true]
        · exact Monitor.follows_ret ⟨h.isOpen, rfl⟩
    · refine Monitor.follows_ret ⟨⟨h.isOpen, ?_⟩, rfl⟩
      show (s.gone || true) = true
      rw [Bool.or_true]
    · dsimp only
      cases hpush : decoder.push (byte :: bytes) with
      | error error => exact Monitor.follows_ret ⟨h.isOpen, rfl⟩
      | ok pushed =>
        dsimp only
        cases hdrain : pushed.drain with
        | error error => exact Monitor.follows_ret ⟨h.isOpen, rfl⟩
        | ok replies =>
          exact Monitor.follows_ret ⟨h.read (Decoder.push_ok hpush) hdrain _, rfl⟩

/-- The next output may be shown. -/
theorem Pending.allowed {bytes : Bytes} {records : List Record}
    (h : s.Pending waiting decoder (.output bytes :: records)) :
    s.Allowed stream (.terminal (.writeOutput bytes)) := by
  obtain ⟨chunks, hdrain, hshown⟩ := h.incoming
  refine ⟨h.raw, ?_⟩
  rw [decoded, hdrain, outputs_append, hshown, outputs, ← List.append_assoc]
  exact List.prefix_append _ _

/-- The next output is shown. -/
theorem Pending.output {bytes : Bytes} {records : List Record}
    (h : s.Pending waiting decoder (.output bytes :: records)) :
    ({ s with shown := s.shown ++ bytes } : Relay).Pending waiting decoder records := by
  obtain ⟨chunks, hdrain, hshown⟩ := h.incoming
  refine ⟨h.raw, h.open_, h.started, h.outgoing, chunks ++ [bytes], ?_, ?_⟩
  · rw [hdrain, List.map_append, List.append_assoc]
    rfl
  · rw [List.flatten_append, hshown, List.flatten_singleton]

/-- What showing records comes to. -/
def Showed (waiting : ByteQueue) (decoder : Decoder) (r : Except IoError (Option ProcessExit × Bool))
    (s : Relay) : Prop :=
  match r with
  | .ok (none, _) => s.Linked waiting decoder
  | .ok (some status, _) => s.Open ∧ s.Told status
  | .error _ => s.Open

theorem relays_showRecords {trace : Option Trace} (records : List Record) (wrote : Bool)
    (h : s.Pending waiting decoder records) :
    Relays stream (showRecords self trace wrote records).run
      (fun r s' => Showed waiting decoder r s' ∧ s'.inputEnded = s.inputEnded) s := by
  have hinvalid : Relays stream (do
      let _ ← traceEvent self trace "invalid_runner_response"
      throw (IoError.new .invalidData "invalid runner response") :
        Io (Option ProcessExit × Bool)).run
      (fun r s' => Showed waiting decoder r s' ∧ s'.inputEnded = s.inputEnded) s := by
    refine follows_lift_bind.mpr ((relays_event _ _).mono ?_)
    rintro _ _ rfl
    exact Monitor.follows_ret ⟨⟨h.raw, h.open_⟩, rfl⟩
  induction records generalizing wrote s with
  | nil => exact Monitor.follows_ret ⟨h.linked, rfl⟩
  | cons record records ih =>
    cases record with
    | output bytes =>
      have hcall : s.Allowed stream (.terminal (.writeOutput bytes)) := h.allowed
      have hshown := h.output
      refine follows_seq _ (relays_call hcall) ?_ ?_
      · rintro _ _ rfl
        refine ih true hshown ?_
        refine follows_lift_bind.mpr ((relays_event _ _).mono ?_)
        rintro _ _ rfl
        exact Monitor.follows_ret ⟨⟨hshown.raw, hshown.open_⟩, rfl⟩
      · rintro error _ rfl
        exact ⟨⟨h.raw, h.open_⟩, rfl⟩
    | exit status =>
      have hflush : s.Allowed stream (.terminal .flushOutput) := h.open_
      refine follows_lift_bind.mpr ((relays_trace
        (within_traceProcessExit (takesTrace trace) _ status)).mono ?_)
      rintro _ s rfl
      refine follows_seq (fun _ s' => s' = s)
        ((relays_call hflush).mono fun r _ hs => hs.trans (by cases r <;> rfl)) ?_ ?_
      · rintro _ s rfl
        obtain ⟨chunks, hdrain, hshown⟩ := h.incoming
        have hdecoded : s.decoded = chunks.map .output ++ .exit status :: records := by
          rw [decoded, hdrain]
        exact Monitor.follows_ret ⟨⟨⟨h.raw, h.open_⟩, chunks, records, hdecoded, hshown⟩, rfl⟩
      · rintro error _ rfl
        exact ⟨⟨h.raw, h.open_⟩, rfl⟩
    | attach rows columns => exact hinvalid
    | resize rows columns => exact hinvalid
    | input bytes => exact hinvalid
    | stop => exact hinvalid

/-! ## Turns -/

/-- What a turn comes to. -/
def Turned (r : Except IoError AttachTurn) (s : Relay) : Prop :=
  match r with
  | .ok (.again st) => Linking st s
  | .ok (.done status) => s.Open ∧ s.Ends status
  | .error _ => s.Open

/-- A turn that ends the attachment. -/
theorem relays_done {trace : Option Trace} {event : String} {status : ProcessExit}
    (hopen : s.Open) (hends : s.Ends status) :
    Relays stream (do
      let _ ← traceEvent self trace event
      return .done status : Io AttachTurn).run Turned s := by
  refine follows_lift_bind.mpr ((relays_event _ _).mono ?_)
  rintro _ _ rfl
  exact Monitor.follows_ret ⟨hopen, hends⟩

/-- A line that is written or not. -/
theorem relays_traceIf {α : Type} {c : Bool} {trace : Option Trace} {event : String}
    {f : Option Trace → Io α} {Q : Except IoError α → Relay → Prop}
    (hf : ∀ trace, Relays stream (f trace).run Q s) :
    Relays stream
      ((if c = true then liftM (traceEvent self trace event) else pure trace) >>= f).run Q s := by
  refine follows_io_bind.mpr ?_
  split
  · refine follows_lift.mpr ((relays_event _ _).mono ?_)
    rintro trace _ rfl
    exact hf trace
  · exact hf trace

theorem relays_receiveReplies {events : PollFlags} {st : AttachState} (h : Linking st s) :
    Relays stream (receiveReplies self stream events st).run Turned s := by
  unfold receiveReplies
  refine relays_traceIf fun trace => relays_traceIf fun trace => ?_
  refine follows_attempt_bind.mpr ((relays_readReplies h.1).mono ?_)
  rintro (error | (_ | ⟨records, decoder⟩)) s' ⟨hreplied, hended⟩
  · exact relays_fail hreplied
  · exact relays_done hreplied.1 (.inr ⟨rfl, .inr (.inl hreplied.2)⟩)
  · refine follows_seq _ (relays_showRecords records false hreplied) ?_ ?_
    · rintro ⟨_ | status, wrote⟩ s'' ⟨hshowed, hended'⟩
      · have hlinking : ∀ trace, Linking { st with decoder, trace } s'' :=
          fun _ => ⟨hshowed, hended'.trans (hended.trans h.2)⟩
        have hflush : s''.Allowed stream (.terminal .flushOutput) := hshowed.open_
        refine follows_seq (fun _ t => t = s'') ?_ ?_ ?_
        · split
          · exact (relays_call hflush).mono fun r t ht => ht.trans (by cases r <;> rfl)
          · exact Monitor.follows_ret rfl
        · rintro _ _ rfl
          exact Monitor.follows_ret (hlinking _)
        · rintro error _ rfl
          exact hshowed.isOpen
      · exact Monitor.follows_ret ⟨hshowed.1, .inl hshowed.2⟩
    · rintro error s'' ⟨hshowed, -⟩
      exact hshowed

theorem relays_relay {events : PollFlags} {st : AttachState} (h : Linking st s) :
    Relays stream (relay self stream events st).run Turned s := by
  unfold relay
  refine follows_seq (fun r s' => ∃ flushed, r = .ok flushed ∧ Flushed st.decoder flushed s' ∧
    s'.inputEnded = s.inputEnded) ?_ ?_ fun _ _ hr => by
      obtain ⟨_, hr, -⟩ := hr
      cases hr
  · split
    · exact follows_lift.mpr ((relays_flush _ h.1).mono fun r s' hr => ⟨r, rfl, hr⟩)
    · exact Monitor.follows_ret ⟨_, rfl, ⟨h.1, fun _ he => by cases he⟩, rfl⟩
  · rintro ⟨queue, result⟩ s' ⟨_, hr, ⟨hlinked, hgone⟩, hended⟩
    obtain rfl := Except.ok.inj hr
    rcases result with error | _
    · dsimp only
      split
      · rename_i hclosed
        refine follows_lift_bind.mpr ((relays_error _ _ _).mono ?_)
        rintro _ _ rfl
        exact Monitor.follows_ret
          ⟨hlinked.isOpen, .inr ⟨rfl, .inr (.inl (hgone error rfl hclosed))⟩⟩
      · exact relays_fail hlinked.isOpen
    · have hlinking : Linking { st with socketOutput := queue } s' :=
        ⟨hlinked, hended.trans h.2⟩
      dsimp only
      split
      · rename_i hdone
        obtain ⟨hclosed, hempty⟩ := hdone
        have hsent : s'.sent = s'.encoded := by
          rw [← hlinked.outgoing, List.isEmpty_iff.mp hempty, List.append_nil]
        exact relays_done hlinked.isOpen
          (.inr ⟨rfl, .inr (.inr ⟨hlinking.2.trans hclosed, hsent⟩)⟩)
      · split
        · exact relays_receiveReplies hlinking
        · exact Monitor.follows_ret hlinking

/-- A signal that was asked for leaves the rest as it is. -/
theorem Linking.signal {st : AttachState} (h : Linking st s) (signalled : Bool) :
    Linking st { s with signalled } :=
  ⟨⟨h.1.raw, h.1.open_, h.1.started, h.1.outgoing, h.1.incoming⟩, h.2⟩

theorem relays_attachTurn {st : AttachState} (h : Linking st s) :
    Relays stream (attachTurn self stream st).run Turned s := by
  have hsignal : ∀ {s : Relay}, s.closed = false → ∀ call ∈ [TerminalCall.hangup, .terminate,
      .resized], s.Allowed stream (.terminal call) := by
    intro s hs call hcall
    simp only [List.mem_cons, List.not_mem_nil, or_false] at hcall
    rcases hcall with rfl | rfl | rfl <;> exact hs
  have hsignalled : ∀ {s : Relay}, Linking st s → s.signalled = true →
      s.Open ∧ s.Ends (.code 0) := fun h hs => ⟨h.1.isOpen, .inr ⟨rfl, .inl hs⟩⟩
  unfold attachTurn
  refine follows_lift_bind.mpr ((relays_call (hsignal h.1.open_ .hangup (by simp))).mono ?_)
  rintro hangup s rfl
  replace h := h.signal (s.signalled || hangup)
  split
  · rename_i hhangup
    have hends := hsignalled h (by rw [hhangup]; exact Bool.or_true _)
    exact relays_done hends.1 hends.2
  refine follows_lift_bind.mpr ((relays_call (hsignal h.1.open_ .terminate (by simp))).mono ?_)
  rintro terminate s rfl
  replace h := h.signal (s.signalled || hangup || terminate)
  split
  · rename_i hterminate
    have hends := hsignalled h (by rw [hterminate]; exact Bool.or_true _)
    exact relays_done hends.1 hends.2
  refine follows_lift_bind.mpr ((relays_call (hsignal h.1.open_ .resized (by simp))).mono ?_)
  rintro resized s rfl
  refine follows_seq Stepped ?_ ?_ fun _ _ hs => hs
  · split
    · exact relays_queueResize h
    · exact Monitor.follows_ret h
  intro st s h
  refine follows_seq Stepped (relays_pollInput h) ?_ fun _ _ hs => hs
  intro st s h
  have hpoll : ∀ writable, s.Allowed stream (.terminal (.pollStream stream writable)) :=
    fun _ => ⟨rfl, h.1.raw⟩
  refine follows_attempt_bind.mpr ((relays_call (hpoll _)).mono ?_)
  rintro (error | events) s rfl
  · dsimp only
    split
    · exact Monitor.follows_ret h
    · exact relays_fail h.1.isOpen
  · exact relays_relay h

/-- What the relay as a whole comes to, before the terminal is restored. -/
def Finished (r : Except IoError ProcessExit) (s : Relay) : Prop :=
  s.Open ∧ ∀ status, r = .ok status → s.Ends status

theorem relays_attachLoop {st : AttachState} (rounds : Nat) (h : Linking st s) :
    Relays stream (attachLoop self stream rounds st).run Finished s := by
  induction rounds generalizing st s with
  | zero => exact Monitor.follows_spin
  | succ rounds ih =>
    rw [attachLoop]
    refine follows_seq Turned (relays_attachTurn h) ?_ ?_
    · rintro (st | status) s hturned
      · exact ih hturned
      · refine Monitor.follows_ret ⟨hturned.1, fun status' h => ?_⟩
        rw [← Except.ok.inj h]
        exact hturned.2
    · intro error s hopen
      exact ⟨hopen, fun _ h => by cases h⟩

/-! ## Joining -/

theorem relays_attachRaw {size : UInt16 × UInt16} {trace : Option Trace} :
    Relays stream (attachRaw self stream size trace).run Finished { start with size, raw := true } := by
  unfold attachRaw
  refine follows_lift_bind.mpr ((relays_event _ _).mono ?_)
  rintro trace _ rfl
  have hregister : ({ start with size, raw := true } : Relay).Allowed stream
      (.terminal .registerSignals) := ⟨rfl, rfl⟩
  refine follows_attempt_bind.mpr ((relays_call hregister).mono ?_)
  rintro (error | _) s rfl
  · exact relays_fail ⟨⟨rfl, rfl⟩, fun _ h => by cases h⟩
  · refine relays_queueRecord (fun queued hqueue => ?_) fun error => ⟨⟨rfl, rfl⟩, fun _ h => by cases h⟩
    refine relays_attachLoop _ ⟨⟨rfl, rfl, rfl, ?_, [], Format.drain_more rfl, rfl⟩, rfl⟩
    show [] ++ queued.bytes = [Record.attach size.1 size.2].flatMap writeRecord
    rw [queueRecord_ok hqueue]
    simp

theorem relays_attachLive {trace : Option Trace} :
    Relays stream (attachLive self stream trace).run Parted start := by
  have hclose : ∀ {s : Relay} (result : Except IoError ProcessExit), s.raw = false →
      s.closed = false → (∀ status, result = .ok status → s.Ends status) →
      Relays stream (do
        liftM (socket (.close stream))
        ask (.ret result) : Io ProcessExit).run Parted s := by
    intro s result hraw hclosed hends
    have hcall : s.Allowed stream (.socket (.close stream)) := ⟨rfl, hraw, hclosed⟩
    refine follows_lift_bind.mpr ((relays_call hcall).mono ?_)
    rintro _ _ rfl
    exact Monitor.follows_ret ⟨hraw, rfl, hends⟩
  unfold attachLive
  refine follows_attempt_bind.mpr (Monitor.Follows.mono (Q := fun r s => s.raw = false ∧
    s.closed = false ∧ ∀ status, r = .ok status → s.Ends status) ?_
      fun r s h => hclose r h.1 h.2.1 h.2.2)
  have hfailed : ∀ {s : Relay} (error : IoError), s.raw = false → s.closed = false →
      s.raw = false ∧ s.closed = false ∧ ∀ status, (.error error : Except IoError ProcessExit) =
        .ok status → s.Ends status := fun _ hraw hclosed => ⟨hraw, hclosed, fun _ h => by cases h⟩
  have hblocking : start.Allowed stream (.socket (.setNonblocking stream true)) := ⟨rfl, rfl, rfl⟩
  refine follows_seq _ (relays_call hblocking) ?_ ?_
  · rintro _ _ hs
    obtain rfl : _ = start := hs
    refine follows_lift_bind.mpr (Monitor.Follows.mono
      (Q := fun size s => s = { start with size }) ?_ ?_)
    · unfold windowSizeOrDefault
      refine Monitor.follows_bind.mpr ((relays_windowSize rfl).mono ?_)
      rintro r _ ⟨answer, rfl, hanswer⟩
      refine Monitor.follows_ret ?_
      rw [hanswer]
      rfl
    · rintro size _ rfl
      have henter : ({ start with size } : Relay).Allowed stream (.terminal .enterRaw) := ⟨rfl, rfl⟩
      refine follows_attempt_bind.mpr ((relays_call henter).mono ?_)
      rintro (error | _) s rfl
      · exact relays_fail (hfailed error rfl rfl)
      · refine follows_attempt_bind.mpr (relays_attachRaw.mono ?_)
        rintro result s ⟨⟨hraw, hclosed⟩, hends⟩
        have hleave : s.Allowed stream (.terminal .leaveRaw) := hraw
        refine follows_lift_bind.mpr ((relays_call hleave).mono ?_)
        rintro _ _ rfl
        exact Monitor.follows_ret ⟨rfl, hclosed, hends⟩
  · rintro error _ rfl
    exact hfailed error rfl rfl

end rules

end Relay

/-- **An attachment is a relay.** Along every run of an attachment, whatever its calls are answered,
it reads its input and uses its stream only while its terminal is raw; what it writes to the stream
goes on from what it has sent of the encoding of an `Attach`, and of the input and the sizes it has
taken since; what it writes to its output goes on from what it has shown of the output it has
received. When it returns, the terminal was restored and the stream closed, once each; it returns
the exit that the runner reported after all output before it was shown, or none after a signal, after
the runner has closed the connection, or once its input has ended and all of it was sent. -/
theorem attachment_relays (self : Self) (stream : Fd) (trace : Option Trace) {log : RunnerLog}
    {p : Prog (Except IoError ProcessExit)}
    (hrun : Runs (fun _ _ _ => True) (attachLive self stream trace).run log p) :
    ∃ s, (relaying stream).after log = some s ∧ ∀ r, p = .ret r → s.Parted r :=
  Monitor.followed_always Relay.relays_attachLive hrun

/-- The runner sends output and an exit. -/
theorem attachment_relays_bye : ∃ log r s,
    Runs (fun _ _ _ => True) (attachLive exampleContext.self 5 none).run log (.ret r) ∧
      (relaying 5).after log = some s ∧ s.shown = ascii "bye" ∧ s.Parted r := by
  have hattach := runs_play (A := fun _ _ _ => True) (o := readyAnswer) (n := 24)
    (s := patientScene) (p := (attachLive exampleContext.self 5 none).run) (by decide +kernel)
  have hshown : ((relaying 5).after (play readyAnswer 24 patientScene []
      (attachLive exampleContext.self 5 none).run).1).map (·.shown) = some (ascii "bye") := by
    decide +kernel
  obtain ⟨r, hr, -⟩ := Program.exists_of_returned (f := fun _ => true)
    (p := (play readyAnswer 24 patientScene [] (attachLive exampleContext.self 5 none).run).2)
    (by decide +kernel)
  obtain ⟨s, hs, hparted⟩ := attachment_relays exampleContext.self 5 none hattach
  rw [hs] at hshown
  rw [hr] at hattach
  exact ⟨_, r, s, hattach, hs, Option.some.inj hshown, hparted r hr⟩

end AfkCli
