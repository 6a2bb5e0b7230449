import AfkCli.Relay

/-!
# From one terminal to the other

An attachment's standard input goes through the reader's thread, the attachment's queue, the socket,
the runner's decoder and the terminal's input queue; the terminal's output goes the other way. Each
part has its own theorem; here they are composed. The parts run in any interleaving, so what joins
them is only that a socket delivers a part of what was sent, in order, and the reader's channel a
part of what was put into it.

## Main definitions

* `readInput`, `stdinBytes`: the reader's thread, and what it read
* `collected`: the events that an attachment took from the channel

## Main results

* `typed_end_to_end`: what reaches the inner terminal's input is a part of the standard input
* `shown_end_to_end`: what is shown is a part of the replay and of the live output
-/

namespace AfkCli

open Interaction

/-! ## The reader's thread -/

/-- `read_input`: the events of the reads of the standard input. The thread ends with the first
event that is not input. -/
def readInput : List (Except IoError Bytes) → List InputEvent
  | [] => []
  | .ok [] :: _ => [.closed]
  | .ok (byte :: bytes) :: reads => .bytes (byte :: bytes) :: readInput reads
  | .error error :: reads =>
    if error.kind = .interrupted then readInput reads else [.failed error]

/-- What was read before the end of the input. -/
def stdinBytes : List (Except IoError Bytes) → Bytes
  | [] => []
  | .ok [] :: _ => []
  | .ok (byte :: bytes) :: reads => byte :: bytes ++ stdinBytes reads
  | .error error :: reads => if error.kind = .interrupted then stdinBytes reads else []

/-- The bytes of an event. -/
def InputEvent.input : InputEvent → Bytes
  | .bytes input => input
  | _ => []

theorem input_readInput (reads : List (Except IoError Bytes)) :
    (readInput reads).flatMap InputEvent.input = stdinBytes reads := by
  induction reads with
  | nil => rfl
  | cons read reads ih =>
    rcases read with error | (_ | ⟨byte, bytes⟩)
    · rw [readInput, stdinBytes]
      split
      · exact ih
      · rfl
    · rfl
    · rw [readInput, stdinBytes, List.flatMap_cons, ih]
      rfl

/-- No event holds more than a read. -/
theorem length_of_mem_readInput {reads : List (Except IoError Bytes)} {limit : Nat}
    (h : ∀ bytes, .ok bytes ∈ reads → bytes.length ≤ limit) {event : InputEvent}
    (hevent : event ∈ readInput reads) : event.input.length ≤ limit := by
  induction reads with
  | nil => cases hevent
  | cons read reads ih =>
    have hrest := ih fun bytes hbytes => h bytes (List.mem_cons_of_mem _ hbytes)
    rcases read with error | (_ | ⟨byte, bytes⟩)
    · rw [readInput] at hevent
      split at hevent
      · exact hrest hevent
      · rw [List.mem_singleton.mp hevent]
        exact Nat.zero_le _
    · rw [readInput, List.mem_singleton] at hevent
      rw [hevent]
      exact Nat.zero_le _
    · rw [readInput] at hevent
      rcases List.mem_cons.mp hevent with rfl | hevent
      · exact h _ List.mem_cons_self
      · exact hrest hevent

/-- What the event took from the reader's channel. -/
def collectedBy : RunnerEvent → List InputEvent
  | ⟨.terminal .tryRecv, .empty⟩ => []
  | ⟨.terminal .tryRecv, event⟩ => [event]
  | _ => []

/-- The events that were taken from the reader's channel, in order. -/
def collected : RunnerLog → List InputEvent
  | [] => []
  | e :: log => collected log ++ collectedBy e

/-! ## What a relay shows -/

namespace Relay

variable {stream : Fd} {s s' : Relay} {log : RunnerLog}

/-- The size is one that AFK takes. -/
def Sized (size : UInt16 × UInt16) : Prop :=
  (1 ≤ size.1 ∧ size.1 ≤ maxTerminalDimension) ∧ (1 ≤ size.2 ∧ size.2 ≤ maxTerminalDimension)

theorem sized_of_valid {r : Except IoError (UInt16 × UInt16)} {size : UInt16 × UInt16}
    (h : validSize r = some size) : Sized size := by
  unfold validSize at h
  split at h
  · split at h
    · rename_i hvalid
      rw [← Option.some.inj h]
      exact hvalid
    · cases h
  · cases h

/-- What holds of a relay along a log: its directions are those of the log; nothing is sent before
an `Attach`, and then a part of what is to be sent; nothing is shown that was not received. -/
structure Sound (stream : Fd) (log : RunnerLog) (s : Relay) : Prop where
  size : Sized s.size
  sent : s.sent = AfkCli.sent stream log
  received : s.received = AfkCli.received stream log
  shown : s.shown = (AfkCli.shown log).flatten
  sent_part : s.sent <+: s.encoded
  shown_part : s.shown <+: outputs s.decoded
  inputs : AfkCli.inputs s.outgoing = (collected log).flatMap InputEvent.input
  unstarted : s.started = false → s.outgoing = [] ∧ s.sent = [] ∧ collected log = []
  valid : (∀ event ∈ collected log, event.input.length ≤ ioChunkBytes) →
    ∀ record ∈ s.outgoing, record.Valid

theorem Sound.start : Sound stream [] .start where
  size := ⟨⟨by decide, by decide⟩, by decide, by decide⟩
  sent := rfl
  received := rfl
  shown := rfl
  sent_part := List.nil_prefix
  shown_part := List.nil_prefix
  inputs := rfl
  unstarted _ := ⟨rfl, rfl, rfl⟩
  valid _ := nofun

/-- An event that carries nothing over the relay. -/
structure Idle (stream : Fd) (e : RunnerEvent) : Prop where
  sent : sentBy stream e = []
  received : receivedBy stream e = []
  shown : shownBy e = []
  collected : collectedBy e = []

/-- Only whether the relay runs has changed. -/
structure SameFlow (s s' : Relay) : Prop where
  size : s'.size = s.size
  started : s'.started = s.started
  outgoing : s'.outgoing = s.outgoing
  sent : s'.sent = s.sent
  received : s'.received = s.received
  shown : s'.shown = s.shown

theorem Sound.frame {e : RunnerEvent} (h : Sound stream log s) (he : Idle stream e)
    (hs : SameFlow s s') : Sound stream (e :: log) s' where
  size := hs.size ▸ h.size
  sent := by rw [hs.sent, h.sent, AfkCli.sent, he.sent, List.append_nil]
  received := by rw [hs.received, h.received, AfkCli.received, he.received, List.append_nil]
  shown := by rw [hs.shown, h.shown, AfkCli.shown, he.shown, List.append_nil]
  sent_part := by
    rw [hs.sent, encoded, hs.outgoing]
    exact h.sent_part
  shown_part := by
    rw [hs.shown, decoded, hs.received]
    exact h.shown_part
  inputs := by rw [hs.outgoing, h.inputs, AfkCli.collected, he.collected, List.append_nil]
  unstarted hstarted := by
    rw [hs.outgoing, hs.sent, AfkCli.collected, he.collected, List.append_nil]
    exact h.unstarted (hs.started ▸ hstarted)
  valid := by
    rw [hs.outgoing, AfkCli.collected, he.collected, List.append_nil]
    exact h.valid

/-- A record that is taken is to be sent after the others. -/
theorem Sound.take {e : RunnerEvent} {records : List Record} (h : Sound stream log s)
    (hstarted : s.started = true) (hsent : sentBy stream e = [])
    (hreceived : receivedBy stream e = []) (hshown : shownBy e = [])
    (hinputs : AfkCli.inputs records = (collectedBy e).flatMap InputEvent.input)
    (hvalid : (∀ event ∈ collectedBy e, event.input.length ≤ ioChunkBytes) →
      ∀ record ∈ records, record.Valid) (inputEnded : Bool) :
    Sound stream (e :: log) { s with outgoing := s.outgoing ++ records, inputEnded } where
  size := h.size
  sent := by rw [AfkCli.sent, hsent, List.append_nil]; exact h.sent
  received := by rw [AfkCli.received, hreceived, List.append_nil]; exact h.received
  shown := by rw [AfkCli.shown, hshown, List.append_nil]; exact h.shown
  sent_part := by
    show s.sent <+: (s.outgoing ++ records).flatMap writeRecord
    rw [List.flatMap_append]
    exact h.sent_part.trans (List.prefix_append _ _)
  shown_part := h.shown_part
  inputs := by
    show AfkCli.inputs (s.outgoing ++ records) = _
    rw [inputs_append, h.inputs, hinputs, AfkCli.collected, List.flatMap_append]
  unstarted hnot := by
    rw [hstarted] at hnot
    cases hnot
  valid hcollected := by
    intro record hrecord
    rcases List.mem_append.mp hrecord with hold | hnew
    · refine h.valid (fun event hevent => hcollected event ?_) record hold
      exact List.mem_append_left _ hevent
    · refine hvalid (fun event hevent => hcollected event ?_) record hnew
      exact List.mem_append_right _ hevent

theorem Sound.write {bytes : Bytes} {n : Nat} (h : Sound stream log s)
    (hstarted : s.started = true) (hall : s.sent ++ bytes = s.encoded) :
    Sound stream (⟨.socket (.write stream bytes), .ok n⟩ :: log)
      { s with sent := s.sent ++ bytes.take n } where
  size := h.size
  sent := by
    show s.sent ++ bytes.take n = AfkCli.sent stream log ++ if stream = stream then bytes.take n else []
    rw [if_pos rfl, h.sent]
  received := h.received.trans (List.append_nil _).symm
  shown := h.shown.trans (congrArg List.flatten (List.append_nil _).symm)
  sent_part := by
    show s.sent ++ bytes.take n <+: s.encoded
    rw [← hall, List.prefix_append_right_inj]
    exact List.take_prefix _ _
  shown_part := h.shown_part
  inputs := by
    show AfkCli.inputs s.outgoing = (collected log ++ []).flatMap InputEvent.input
    rw [List.append_nil, h.inputs]
  unstarted hnot := by
    rw [hstarted] at hnot
    cases hnot
  valid hcollected := h.valid fun event hevent => hcollected event (List.mem_append_left _ hevent)

theorem Sound.read {capacity : Nat} {bytes : Bytes} (h : Sound stream log s)
    (gone : Bool) :
    Sound stream (⟨.socket (.read stream capacity), .ok bytes⟩ :: log)
      { s with received := s.received ++ bytes, gone } where
  size := h.size
  sent := h.sent.trans (List.append_nil _).symm
  received := by
    show s.received ++ bytes = AfkCli.received stream log ++ if stream = stream then bytes else []
    rw [if_pos rfl, h.received]
  shown := h.shown.trans (congrArg List.flatten (List.append_nil _).symm)
  sent_part := h.sent_part
  shown_part := h.shown_part.trans (outputs_mono (drain_extends _ _))
  inputs := by
    show AfkCli.inputs s.outgoing = (collected log ++ []).flatMap InputEvent.input
    rw [List.append_nil, h.inputs]
  unstarted hnot := by
    show s.outgoing = [] ∧ s.sent = [] ∧ collected log ++ [] = []
    rw [List.append_nil]
    exact h.unstarted hnot
  valid hcollected := h.valid fun event hevent => hcollected event (List.mem_append_left _ hevent)

theorem Sound.show {bytes : Bytes} (h : Sound stream log s)
    (hpart : s.shown ++ bytes <+: outputs s.decoded) :
    Sound stream (⟨.terminal (.writeOutput bytes), .ok ()⟩ :: log)
      { s with shown := s.shown ++ bytes } where
  size := h.size
  sent := h.sent.trans (List.append_nil _).symm
  received := h.received.trans (List.append_nil _).symm
  shown := by
    show s.shown ++ bytes = (AfkCli.shown log ++ [bytes]).flatten
    rw [List.flatten_append, List.flatten_singleton, h.shown]
  sent_part := h.sent_part
  shown_part := hpart
  inputs := by
    show AfkCli.inputs s.outgoing = (collected log ++ []).flatMap InputEvent.input
    rw [List.append_nil, h.inputs]
  unstarted hnot := by
    show s.outgoing = [] ∧ s.sent = [] ∧ collected log ++ [] = []
    rw [List.append_nil]
    exact h.unstarted hnot
  valid hcollected := h.valid fun event hevent => hcollected event (List.mem_append_left _ hevent)

/-- The size is read again. -/
theorem Sound.sized {size : UInt16 × UInt16} (h : Sound stream log s) (hsize : Sized size) :
    Sound stream log { s with size } :=
  ⟨hsize, h.sent, h.received, h.shown, h.sent_part, h.shown_part, h.inputs, h.unstarted, h.valid⟩

/-- The relay starts with an `Attach`. -/
theorem Sound.begin (h : Sound stream log s) (hstarted : s.started = false) :
    Sound stream log { s with started := true, outgoing := [.attach s.size.1 s.size.2] } := by
  obtain ⟨houtgoing, hsent, hcollected⟩ := h.unstarted hstarted
  refine ⟨h.size, h.sent, h.received, h.shown, ?_, h.shown_part, ?_, ?_, ?_⟩
  · show s.sent <+: _
    rw [hsent]
    exact List.nil_prefix
  · rw [hcollected]
    rfl
  · intro hnot
    cases hnot
  · intro _ record hrecord
    rw [List.mem_singleton.mp hrecord]
    exact h.size

theorem sound_next {op : Call} {r : op.Answer} (h : Sound stream log s)
    (hnext : s.next stream op r = some s') : Sound stream (⟨op, r⟩ :: log) s' := by
  have hallowed : s.Allowed stream op := by
    by_contra hnot
    rw [next, if_neg hnot] at hnext
    cases hnext
  obtain rfl : s.learn op r = s' := by
    rw [next, if_pos hallowed] at hnext
    exact Option.some.inj hnext
  have hsame : SameFlow s s := ⟨rfl, rfl, rfl, rfl, rfl, rfl⟩
  cases op with
  | file call =>
    cases call with
    | writeAll site fd bytes => exact h.frame ⟨rfl, rfl, rfl, rfl⟩ hsame
    | _ => exact hallowed.elim
  | process call =>
    cases call with
    | now site => exact h.frame ⟨rfl, rfl, rfl, rfl⟩ hsame
    | _ => exact hallowed.elim
  | note note => exact hallowed.elim
  | socket call =>
    cases call with
    | setNonblocking fd on => exact h.frame ⟨rfl, rfl, rfl, rfl⟩ hsame
    | close fd => exact h.frame ⟨rfl, rfl, rfl, rfl⟩ ⟨rfl, rfl, rfl, rfl, rfl, rfl⟩
    | write fd bytes =>
      obtain ⟨rfl, -, hstarted, hall⟩ := hallowed
      rcases r with error | n
      · exact h.frame ⟨rfl, rfl, rfl, rfl⟩ ⟨rfl, rfl, rfl, rfl, rfl, rfl⟩
      · exact h.write hstarted hall
    | read fd capacity =>
      obtain ⟨rfl, -, -⟩ := hallowed
      rcases r with error | bytes
      · exact h.frame ⟨rfl, rfl, rfl, rfl⟩ ⟨rfl, rfl, rfl, rfl, rfl, rfl⟩
      · exact h.read _
    | _ => exact hallowed.elim
  | terminal call =>
    cases call with
    | windowSize =>
      have hidle : Idle stream ⟨.terminal .windowSize, r⟩ := ⟨rfl, rfl, rfl, rfl⟩
      by_cases hstarted : s.started = true
      · rw [learn, if_pos hstarted]
        refine h.take hstarted rfl rfl rfl ?_ ?_ s.inputEnded
        · rw [hidle.collected]
          cases validSize r <;> rfl
        · intro _ record hrecord
          obtain ⟨size, hsize, rfl⟩ := List.mem_map.mp hrecord
          exact sized_of_valid (Option.mem_toList.mp hsize)
      · rw [learn, if_neg hstarted]
        refine (h.frame hidle hsame).sized ?_
        cases hvalid : validSize r with
        | none => exact ⟨⟨by decide, by decide⟩, by decide, by decide⟩
        | some size => exact sized_of_valid hvalid
    | tryRecv =>
      have hstarted : s.started = true := hallowed.2.1
      have hother : ∀ (event : InputEvent) (inputEnded : Bool), event.input = [] →
          collectedBy ⟨.terminal .tryRecv, event⟩ = [event] →
          Sound stream (⟨.terminal .tryRecv, event⟩ :: log) { s with inputEnded } := by
        intro event inputEnded hinput hcollected
        have hnothing : AfkCli.inputs [] =
            (collectedBy ⟨.terminal .tryRecv, event⟩).flatMap InputEvent.input := by
          rw [hcollected, List.flatMap_singleton, hinput, inputs_nil]
        have htake : Sound stream (⟨.terminal .tryRecv, event⟩ :: log)
            { s with outgoing := s.outgoing ++ [], inputEnded } :=
          h.take hstarted rfl rfl rfl hnothing (fun _ _ h => by cases h) inputEnded
        rwa [List.append_nil] at htake
      cases r with
      | bytes bytes =>
        refine h.take hstarted rfl rfl rfl ?_ ?_ s.inputEnded
        · simp [collectedBy, AfkCli.inputs, InputEvent.input, Record.inputBytes]
        · intro hlength record hrecord
          rw [List.mem_singleton.mp hrecord]
          exact (hlength _ List.mem_cons_self).trans (by decide)
      | closed => exact hother .closed true rfl rfl
      | disconnected => exact hother .disconnected true rfl rfl
      | failed error => exact hother (.failed error) s.inputEnded rfl rfl
      | empty => exact h.frame ⟨rfl, rfl, rfl, rfl⟩ hsame
    | registerSignals =>
      rcases r with error | _
      · exact h.frame ⟨rfl, rfl, rfl, rfl⟩ hsame
      · exact (h.frame ⟨rfl, rfl, rfl, rfl⟩ hsame).begin hallowed.2
    | writeOutput bytes =>
      rcases r with error | _
      · exact h.frame ⟨rfl, rfl, rfl, rfl⟩ hsame
      · exact h.show hallowed.2
    | enterRaw => cases r <;> exact h.frame ⟨rfl, rfl, rfl, rfl⟩ ⟨rfl, rfl, rfl, rfl, rfl, rfl⟩
    | flushOutput => exact h.frame ⟨rfl, rfl, rfl, rfl⟩ hsame
    | leaveRaw => exact h.frame ⟨rfl, rfl, rfl, rfl⟩ ⟨rfl, rfl, rfl, rfl, rfl, rfl⟩
    | hangup => exact h.frame ⟨rfl, rfl, rfl, rfl⟩ ⟨rfl, rfl, rfl, rfl, rfl, rfl⟩
    | terminate => exact h.frame ⟨rfl, rfl, rfl, rfl⟩ ⟨rfl, rfl, rfl, rfl, rfl, rfl⟩
    | resized => exact h.frame ⟨rfl, rfl, rfl, rfl⟩ hsame
    | pollStream fd writable => exact h.frame ⟨rfl, rfl, rfl, rfl⟩ hsame

/-- A relay is sound along every log that it allows. -/
theorem sound_after (h : (relaying stream).after log = some s) : Sound stream log s :=
  (relaying stream).invariant (P := Sound stream) .start
    (fun _ _ _ _ _ hs hnext => sound_next hs hnext) h

end Relay

/-! ## Input -/

/-- What reaches the runner decodes to a part of what was encoded. -/
theorem drain_encoded {records : List Record} (hvalid : ∀ record ∈ records, record.Valid)
    {bytes : Bytes} (h : bytes <+: records.flatMap writeRecord) :
    (ipcFormat.drain bytes).1 <+: records := by
  obtain ⟨more, hmore⟩ := h
  have hall : ipcFormat.drain (records.flatMap writeRecord) = (records, .ok []) := by
    have hdrain := Format.drain_flatMap (F := ipcFormat)
      (fun record hrecord => cut_encode (hvalid record hrecord)) []
    rwa [List.append_nil, Format.drain_more cut_nil, List.append_nil] at hdrain
  have hpart := drain_extends bytes more
  rwa [hmore, hall] at hpart

theorem inputs_mono {records records' : List Record} (h : records <+: records') :
    inputs records <+: inputs records' := by
  obtain ⟨more, rfl⟩ := h
  rw [inputs_append]
  exact List.prefix_append _ _

/-- Where no other connection contributes, the terminal's input is the connection's. -/
theorem typed_eq_contributed {fd : Fd} {log : RunnerLog}
    (h : ∀ other, other ≠ fd → contributed other log = []) : typed log = contributed fd log := by
  induction log with
  | nil => rfl
  | cons e log ih =>
    have hbefore : ∀ other, other ≠ fd → contributed other log = [] := fun other hother =>
      (List.append_eq_nil_iff.mp (h other hother)).1
    rw [typed, contributed, ih hbefore]
    refine congrArg _ ?_
    unfold typedBy
    split
    · rename_i stream bytes r
      by_cases hstream : stream = fd
      · exact (if_pos hstream).symm
      · have hnothing := (List.append_eq_nil_iff.mp (h stream hstream)).2
        rw [contributedBy, if_pos rfl] at hnothing
        rw [contributedBy, if_neg hstream, hnothing]
    · rename_i hnot
      unfold contributedBy
      split
      · exact absurd rfl (hnot _ _ _)
      · rfl

/-- **From the standard input to the inner terminal.** An attachment and the runner run in any
interleaving; the reader's channel delivers a part of what the reader put into it, and the socket a
part of what the attachment sent. Then what the runner takes as input from the connection is a part
of the standard input, in order; and where no other connection contributes, so is everything that
the inner terminal is written. -/
theorem typed_end_to_end (process : Self) (ctx : RunnerContext) (stream fd : Fd)
    (trace trace' : Option Trace) {log₁ log₂ : RunnerLog}
    {p₁ : Prog (Except IoError ProcessExit)} {p₂ : Prog (Except IoError Unit)}
    (hattach : Runs (fun _ _ _ => True) (attachLive process stream trace).run log₁ p₁)
    (hserve : Runs connections (ctx.serve trace').run log₂ p₂)
    {reads : List (Except IoError Bytes)}
    (hreads : ∀ bytes, .ok bytes ∈ reads → bytes.length ≤ ioChunkBytes)
    (hchannel : collected log₁ <+: readInput reads)
    (hsocket : received fd log₂ <+: sent stream log₁) :
    contributed fd log₂ <+: stdinBytes reads ∧
      ((∀ other, other ≠ fd → contributed other log₂ = []) → ptyWritten log₂ <+: stdinBytes reads) := by
  obtain ⟨s, hs, -⟩ := attachment_relays process stream trace hattach
  have hsound := Relay.sound_after hs
  obtain ⟨h, hserves⟩ := serves_of_runs hserve
  have hinput := hserves.input (nodup_of_allowed hserve.allowed)
  have hvalid : ∀ record ∈ s.outgoing, record.Valid :=
    hsound.valid fun event hevent => length_of_mem_readInput hreads (hchannel.subset hevent)
  have hpart : contributed fd log₂ <+: stdinBytes reads := by
    obtain ⟨applied, happlied, hcontributed, -⟩ := hinput.provenance fd
    have hdecoded : (ipcFormat.drain (received fd log₂)).1 <+: s.outgoing :=
      drain_encoded hvalid (hsocket.trans (hsound.sent ▸ hsound.sent_part))
    rw [hcontributed]
    refine (inputs_mono (happlied.trans hdecoded)).trans ?_
    rw [hsound.inputs, ← input_readInput]
    obtain ⟨more, hmore⟩ := hchannel
    rw [← hmore, List.flatMap_append]
    exact List.prefix_append _ _
  refine ⟨hpart, fun halone => ?_⟩
  have htyped : ptyWritten log₂ <+: typed log₂ := ⟨_, hinput.queue⟩
  rw [typed_eq_contributed halone] at htyped
  exact htyped.trans hpart

/-- An outside that types, and takes everything that is sent. -/
def typistAnswer (events : List InputEvent) : (op : Call) → op.Answer × List InputEvent
  | .terminal .tryRecv => nextAnswer .empty events
  | .terminal (.pollStream ..) => (.ok Scene.writable, events)
  | .socket (.write _ bytes) => (.ok bytes.length, events)
  | op => (Kernel.quietAnswer op, events)

theorem typed_end_to_end_ls : ∃ log₁ log₂ p₁ p₂,
    Runs (fun _ _ _ => True) (attachLive exampleContext.self 5 none).run log₁ p₁ ∧
      Runs connections (exampleContext.serve none).run log₂ p₂ ∧
        ptyWritten log₂ = ascii "ls" ∧
          contributed 5 log₂ <+: stdinBytes [.ok (ascii "ls"), .ok (ascii "exit")] := by
  have hattach := runs_play (A := fun _ _ _ => True) (o := typistAnswer) (n := 24)
    (s := [.bytes (ascii "ls")]) (p := (attachLive exampleContext.self 5 none).run)
    (by decide +kernel)
  have hserve := runs_play (A := connections) (o := Scene.answer) (n := 24) (s := typingScene)
    (p := (exampleContext.serve none).run) (by decide +kernel)
  have hreads : ∀ bytes, .ok bytes ∈
      ([.ok (ascii "ls"), .ok (ascii "exit")] : List (Except IoError Bytes)) →
        bytes.length ≤ ioChunkBytes := by
    intro bytes hbytes
    simp only [List.mem_cons, List.not_mem_nil, or_false, Except.ok.injEq] at hbytes
    rcases hbytes with rfl | rfl <;> decide
  refine ⟨_, _, _, _, hattach, hserve, by decide +kernel, ?_⟩
  exact (typed_end_to_end exampleContext.self exampleContext 5 5 none none hattach hserve hreads
    (by decide +kernel) (by decide +kernel)).1

/-! ## Output -/

theorem outputs_plan (chunks : List Bytes) (exit : Option ProcessExit) :
    outputs (plan chunks exit) = chunks.flatten := by
  cases exit with
  | none => exact (outputs_append chunks []).trans (List.append_nil _)
  | some exit => exact (outputs_append chunks [.exit exit]).trans (List.append_nil _)

/-- **From the inner terminal to the standard output.** The socket delivers a part of what the
runner sent. Then what an attachment shows is a part of the replay of what the inner terminal had
shown before the connection was activated, followed by what it has shown since. An attachment that
returns an exit other than 0 was told it by the runner, and has shown all of it. -/
theorem shown_end_to_end (process : Self) (ctx : RunnerContext) (stream fd : Fd)
    (trace trace' : Option Trace) {log₁ log₂ : RunnerLog}
    {p₁ : Prog (Except IoError ProcessExit)} {p₂ : Prog (Except IoError Unit)}
    (hattach : Runs (fun _ _ _ => True) (attachLive process stream trace).run log₁ p₁)
    (hserve : Runs connections (ctx.serve trace').run log₂ p₂)
    (hsocket : received stream log₁ <+: sent fd log₂) :
    (shown log₁).flatten <+: (expected fd log₂).getD [] ∧
      ∀ status, p₁ = .ret (.ok status) → status ≠ .code 0 →
        some (shown log₁).flatten = expected fd log₂ := by
  obtain ⟨s, hs, hparted⟩ := attachment_relays process stream trace hattach
  have hsound := Relay.sound_after hs
  obtain ⟨h, hserves⟩ := serves_of_runs hserve
  have houtput := hserves.output (nodup_of_allowed hserve.allowed)
  have hshown : (shown log₁).flatten <+: outputs s.decoded := hsound.shown ▸ hsound.shown_part
  have hdecoded : s.decoded = (ipcFormat.drain (received stream log₁)).1 := by
    rw [Relay.decoded, hsound.received]
  cases hexpected : expected fd log₂ with
  | none =>
    -- nothing was sent to a connection that was never activated
    have hnothing : s.decoded = [] := by
      rw [houtput.unsent fd hexpected] at hsocket
      rw [hdecoded, List.prefix_nil.mp hsocket, Format.drain_more cut_nil]
    rw [hnothing] at hshown
    refine ⟨hshown, fun status hreturned hstatus => ?_⟩
    rcases (hparted _ hreturned).ends status rfl with htold | hmadeUp
    · obtain ⟨chunks, rest, htold, -⟩ := htold
      rw [hnothing] at htold
      cases chunks <;> cases htold
    · exact absurd hmadeUp.1 hstatus
  | some wanted =>
    obtain ⟨chunks, exit, hsendable, hwanted, hsent, hexit⟩ := houtput.faithful fd _ hexpected
    have hplanned := drain_plan hsendable (hsocket.trans hsent)
    rw [← hdecoded] at hplanned
    have hpart := outputs_mono hplanned
    rw [outputs_plan] at hpart
    refine ⟨hshown.trans (hpart.trans hwanted), fun status hreturned hstatus => ?_⟩
    rcases (hparted _ hreturned).ends status rfl with htold | hmadeUp
    · obtain ⟨told, rest, htold, hflatten⟩ := htold
      obtain ⟨chunks', exit', hrecords, -, hend⟩ := prefix_plan hplanned
      have hsome : exit'.isSome := by
        cases exit' with
        | some exit => rfl
        | none =>
          have hmem : Record.exit status ∈ plan chunks' none := by
            rw [← hrecords, htold]
            simp
          simp [plan] at hmem
      have hall : chunks'.flatten = told.flatten := by
        rw [← outputs_plan chunks' exit', ← hrecords, htold, outputs_append]
        exact List.append_nil _
      rw [← hsound.shown, ← hflatten, ← hall, (hend hsome).2, (hexit (hend hsome).1).2]
    · exact absurd hmadeUp.1 hstatus

/-- A connection attaches, the terminal shows something, and the child exits. -/
def farewellScene : Scene where
  accepts := [.ok 5]
  reads := [.ok (writeRecord (.attach 24 80))]
  polls := [Scene.atListener, Scene.atCandidate,
    { Scene.atActive with active := Scene.writable }]
  ptyReads := [.error (.os .wouldBlock 11), .error (.os .wouldBlock 11), .ok (ascii "bye")]
  waits := [none, none, none, some ⟨some 3, none⟩]

theorem shown_end_to_end_bye : ∃ log₁ log₂ p₂,
    Runs (fun _ _ _ => True) (attachLive exampleContext.self 5 none).run log₁
        (.ret (.ok (.code 3))) ∧
      Runs connections (exampleContext.serve none).run log₂ p₂ ∧
        shown log₁ = [ascii "bye"] ∧ some (shown log₁).flatten = expected 5 log₂ := by
  have hattach := runs_play (A := fun _ _ _ => True) (o := readyAnswer) (n := 24)
    (s := patientScene) (p := (attachLive exampleContext.self 5 none).run) (by decide +kernel)
  have hserve := runs_play (A := connections) (o := Scene.answer) (n := 80) (s := farewellScene)
    (p := (exampleContext.serve none).run) (by decide +kernel)
  obtain ⟨r, hr, hcode⟩ := Program.exists_of_returned
    (f := fun r => r.toOption.any fun status => status = .code 3)
    (p := (play readyAnswer 24 patientScene [] (attachLive exampleContext.self 5 none).run).2)
    (by decide +kernel)
  cases r with
  | error error => cases hcode
  | ok status =>
    obtain rfl : status = .code 3 := of_decide_eq_true hcode
    rw [hr] at hattach
    refine ⟨_, _, _, hattach, hserve, by decide +kernel, ?_⟩
    exact (shown_end_to_end exampleContext.self exampleContext 5 5 none none hattach hserve
      (by decide +kernel)).2 _ rfl (by decide)

end AfkCli
