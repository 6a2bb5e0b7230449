import AfkCli.Custody
import AfkCli.Queueing

/-!
# Peers

Whoever reaches the socket of a session can connect to it. A process reads and writes a stream only
after it has asked the system for the user at the other end, and only when it is its own user; any
other stream is closed, with nothing read from it and nothing written to it. A runner holds at most
an attachment, a candidate and the stream whose user it is about to ask for; each time it polls, it
polls every stream that it holds. What a return with an error drops from a runner is not logged.

## Main definitions

* `Peers`: the streams that a process holds
* `Peers.Allowed`, `Peers.learn`: what it may do with them, and what it has learnt
* `meeting`: the monitor

## Main results

* `Peers.handles_tick`: a turn of the event loop holds the streams of its state
* `peers_known`: every run of the program uses only streams of its own user
-/

namespace AfkCli

open Interaction Surface

/-- The streams that a process holds: the one whose user it does not know, and those of its own
user. -/
structure Peers where
  pending : Option Fd
  known : Multiset Fd
  deriving DecidableEq

/-- The stream, when there is one. -/
def held : Option Fd → Multiset Fd
  | some stream => {stream}
  | none => 0

/-- The streams of the event loop. -/
def LoopState.streams (st : LoopState) : Multiset Fd :=
  held (st.active.map (·.stream)) + held (st.candidate.map (·.stream))

namespace Peers

/-! ## The monitor -/

def start : Peers := ⟨none, 0⟩

/-- All streams of the process. -/
def streams (s : Peers) : Multiset Fd := held s.pending + s.known

/-- The streams that a runner polls. -/
def polled (request : PollRequest) : Multiset Fd :=
  held (request.active.map Prod.fst) + held request.candidate

/-- What a process may do with its streams. -/
def Allowed (s : Peers) : Call → Prop
  | .socket (.accept _) => s.pending = none ∧ s.known.card ≤ 2
  | .socket (.connect _) => s = start
  | .socket (.peerUid stream) => s.pending = some stream
  | .socket (.read stream _) | .socket (.write stream _) => stream ∈ s.known
  | .socket (.setReadTimeout stream) | .socket (.setWriteTimeout stream) => stream ∈ s.known
  | .socket (.close stream) => s.pending = some stream ∨ s.pending = none ∧ stream ∈ s.known
  | .process (.poll request) => s = ⟨none, polled request⟩
  | .terminal (.pollStream stream _) => s = ⟨none, {stream}⟩
  | _ => True

/-- What a process of the user `uid` learns of its streams. -/
def learn (uid : Nat) (s : Peers) : (op : Call) → op.Answer → Peers
  | .socket (.accept _), .ok stream => { s with pending := some stream }
  | .socket (.connect _), .ok stream => { s with pending := some stream }
  | .socket (.peerUid stream), .ok peer =>
    if peer = uid then ⟨none, stream ::ₘ s.known⟩ else s
  | .socket (.close stream), _ =>
    if s.pending.isSome then { s with pending := none }
    else { s with known := s.known.erase stream }
  | _, _ => s

open Classical in
noncomputable def next (uid : Nat) (s : Peers) (op : Call) (r : op.Answer) : Option Peers :=
  if s.Allowed op then some (s.learn uid op r) else none

end Peers

/-- The monitor of a process of the user `uid`. -/
noncomputable def meeting (uid : Nat) : Monitor Call Call.Answer Peers where
  start := .start
  next s op r := s.next uid op r

namespace Peers

section rules

variable {uid : Nat} {s : Peers} {stream : Fd} {rest : Multiset Fd} {α β : Type}

/-- From the state `s`, the program uses only streams of its own user. -/
abbrev Meets (uid : Nat) (p : Prog α) (Q : α → Peers → Prop) (s : Peers) : Prop :=
  (meeting uid).Follows (fun _ _ _ => True) p Q s

theorem meets_call {op : Call} (h : s.Allowed op) :
    Meets uid (Program.perform op) (fun r s' => s' = s.learn uid op r) s :=
  Monitor.follows_perform fun _ _ => ⟨_, if_pos h, rfl⟩

/-! ## Calls that leave the streams as they are -/

/-- The call is allowed, and leaves the streams as they are. -/
def Steady (s : Peers) (op : Call) : Prop := s.Allowed op ∧ ∀ uid r, s.learn uid op r = s

theorem meets_steady {p : Prog α} {q : α → Prop} (hp : p.Within (fun _ _ => True) s.Steady q) :
    Meets uid p (fun a s' => q a ∧ s' = s) s := by
  apply Monitor.follows_of_within (P := (· = s)) hp _ rfl
  rintro op r _ ⟨hallowed, hlearn⟩ rfl -
  exact ⟨_, if_pos hallowed, hlearn uid r⟩

theorem meets_only {p : Io α} (hp : Only s.Steady p) : Meets uid p.run (fun _ s' => s' = s) s :=
  (meets_steady hp).mono fun _ _ h => h.2

theorem steady_of_streamless (op : Call) (h : Streamless op) : s.Steady op := by
  cases op with
  | file call => exact ⟨trivial, fun _ _ => rfl⟩
  | socket call => cases call <;> first | exact h.elim | exact ⟨trivial, fun _ _ => rfl⟩
  | process call => cases call <;> first | exact h.elim | exact ⟨trivial, fun _ _ => rfl⟩
  | terminal call => cases call <;> first | exact h.elim | exact ⟨trivial, fun _ _ => rfl⟩
  | note note => exact ⟨trivial, fun _ _ => rfl⟩

theorem steady_read (h : stream ∈ s.known) (capacity : Nat) :
    s.Steady (.socket (.read stream capacity)) := ⟨h, fun _ _ => rfl⟩

theorem steady_write (h : stream ∈ s.known) (bytes : Bytes) :
    s.Steady (.socket (.write stream bytes)) := ⟨h, fun _ _ => rfl⟩

theorem steady_traces (trace : Option Trace) : TakesTrace s.Steady trace :=
  ⟨steady_of_streamless _ trivial, fun _ _ _ => steady_of_streamless _ trivial⟩

theorem steady_opens (op : Call) (h : Opens op) : s.Steady op :=
  steady_of_streamless op (streamless_of_opens h)

theorem steady_looks (op : Call) (h : Looks op) : s.Steady op :=
  steady_of_streamless op (streamless_of_looks h)

theorem steady_namedTraces {self : Self} {component : String} (op : Call)
    (h : Surface.Traces self component op) : s.Steady op :=
  steady_of_streamless op (streamless_of_traces h)

theorem steady_sends (h : stream ∈ s.known) (op : Call) (hop : Sends stream op) : s.Steady op := by
  unfold Sends at hop
  split at hop
  · exact steady_of_streamless _ trivial
  · obtain rfl := hop
    exact ⟨h, fun _ _ => rfl⟩
  · obtain rfl := hop
    exact steady_write h _
  · exact hop.elim

/-- All that an attachment does on its stream. -/
theorem steady_attends {self : Self} (op : Call) (h : Attends self stream op) :
    (⟨none, {stream}⟩ : Peers).Steady op := by
  have hmem : stream ∈ (⟨none, {stream}⟩ : Peers).known := Multiset.mem_singleton_self stream
  rcases h with h | h
  · unfold Relaying at h
    split at h
    · exact h.elim
    · exact h.elim
    · exact h.elim
    · obtain rfl := h
      exact ⟨rfl, fun _ _ => rfl⟩
    · apply steady_of_streamless
      rename_i call _ _ _ hpoll
      cases call <;> first | trivial | exact absurd rfl (hpoll _ _)
    · obtain rfl := h
      exact steady_read hmem _
    · obtain rfl := h
      exact steady_write hmem _
    · exact h.elim
  · exact steady_of_streamless op (streamless_of_traces h)

/-! ## Programs that may fail -/

/-- From the state `s`, the program uses only streams of its own user, and what it returns without
an error satisfies `P`. -/
abbrev Gives (uid : Nat) (p : Io α) (P : α → Peers → Prop) (s : Peers) : Prop :=
  Meets uid p.run (fun r s' => ∀ a, r = .ok a → P a s') s

variable {P : α → Peers → Prop} {R : β → Peers → Prop}

theorem gives_pure {a : α} (h : P a s) : Gives uid (pure a) P s := by
  apply Monitor.follows_ret
  intro _ ha
  obtain rfl := Except.ok.inj ha
  exact h

theorem gives_throw (error : IoError) : Gives uid (throw error) P s := by
  apply Monitor.follows_ret
  intro _ ha
  cases ha

theorem gives_bind {p : Io α} {f : α → Io β} (hp : Gives uid p P s)
    (hf : ∀ a s', P a s' → Gives uid (f a) R s') : Gives uid (p >>= f) R s := by
  apply follows_seq _ hp
  · intro a s' ha
    exact hf a s' (ha a rfl)
  · intro _ _ _ _ hr
    cases hr

theorem gives_attempt_bind {p : Io α} {f : Except IoError α → Io β}
    {Q : Except IoError α → Peers → Prop} (hp : Meets uid p.run Q s)
    (hf : ∀ r s', Q r s' → Gives uid (f r) R s') : Gives uid (attempt p >>= f) R s :=
  follows_attempt_bind.mpr (hp.mono hf)

theorem gives_lift {p : Prog α} (hp : Meets uid p P s) : Gives uid (liftM p) P s := by
  apply follows_lift.mpr
  apply hp.mono
  intro a s' ha _ hr
  obtain rfl := Except.ok.inj hr
  exact ha

theorem gives_lift_bind {p : Prog α} {f : α → Io β} {Q : α → Peers → Prop} (hp : Meets uid p Q s)
    (hf : ∀ a s', Q a s' → Gives uid (f a) R s') : Gives uid ((liftM p : Io α) >>= f) R s :=
  follows_lift_bind.mpr (hp.mono hf)

/-- First something that leaves the streams as they are. -/
theorem gives_only_bind {p : Io α} {f : α → Io β} (hp : Only s.Steady p)
    (hf : ∀ a, Gives uid (f a) R s) : Gives uid (p >>= f) R s := by
  apply follows_seq _ (meets_only hp)
  · rintro a _ rfl
    exact hf a
  · intro _ _ _ _ hr
    cases hr

theorem gives_yields {p : Io α} {q : α → Prop} (hp : Yields s.Steady q p) :
    Gives uid p (fun a s' => q a ∧ s' = s) s := by
  apply (meets_steady hp).mono
  rintro r _ ⟨hr, rfl⟩ a ha
  exact ⟨hr a ha, rfl⟩

theorem gives_ask_bind {r : Except IoError α} {f : α → Io β}
    (hf : ∀ a, r = .ok a → Gives uid (f a) R s) : Gives uid (ask (.ret r) >>= f) R s := by
  cases r with
  | ok a => exact hf a rfl
  | error error => exact gives_throw error

/-! ## Streams that are dropped -/

theorem meets_close (rest : Multiset Fd) :
    Meets uid (socket (.close stream)) (fun _ s' => s' = ⟨none, rest⟩)
      ⟨none, stream ::ₘ rest⟩ := by
  have hclose : (⟨none, stream ::ₘ rest⟩ : Peers).Allowed (.socket (.close stream)) :=
    .inr ⟨rfl, Multiset.mem_cons_self stream rest⟩
  apply (meets_call hclose).mono
  rintro _ _ rfl
  show (⟨none, (stream ::ₘ rest).erase stream⟩ : Peers) = ⟨none, rest⟩
  rw [Multiset.erase_cons_head]

/-- The stream was not identified. -/
theorem meets_close_pending : Meets uid (socket (.close stream)) (fun _ s' => s' = ⟨none, rest⟩)
    ⟨some stream, rest⟩ := by
  have hclose : (⟨some stream, rest⟩ : Peers).Allowed (.socket (.close stream)) := .inl rfl
  exact (meets_call hclose).mono fun _ _ h => h

theorem meets_closeConnection (connection : Option Connection) (rest : Multiset Fd) :
    Meets uid (closeConnection connection) (fun _ s' => s' = ⟨none, rest⟩)
      ⟨none, held (connection.map (·.stream)) + rest⟩ := by
  cases connection with
  | none =>
    apply Monitor.follows_ret
    show (⟨none, 0 + rest⟩ : Peers) = ⟨none, rest⟩
    rw [zero_add]
  | some connection =>
    show Meets uid _ _ ⟨none, {connection.stream} + rest⟩
    rw [Multiset.singleton_add]
    exact meets_close rest

end rules

/-! ## The event loop -/

section loop

variable {uid : Nat} {s : Peers} {α : Type} {self : Self} {session : SessionId}
  {ctx : RunnerContext} {st : LoopState} {connection : Connection}

theorem card_held (stream : Option Fd) : (held stream).card ≤ 1 := by
  cases stream with
  | none => exact Nat.zero_le 1
  | some stream => exact (Multiset.card_singleton stream).le

theorem card_streams : st.streams.card ≤ 2 := by
  have hactive := card_held (st.active.map (·.stream))
  have hcandidate := card_held (st.candidate.map (·.stream))
  rw [LoopState.streams, Multiset.card_add]
  omega

theorem polled_pollRequest : polled (RunnerContext.pollRequest st) = st.streams := by
  rw [polled, RunnerContext.pollRequest, LoopState.streams]
  simp only [Option.map_map]
  rfl

theorem mem_active (h : st.active = some connection) : connection.stream ∈ st.streams := by
  rw [LoopState.streams, h]
  exact Multiset.mem_add.mpr (.inl (Multiset.mem_singleton_self _))

theorem mem_candidate (h : st.candidate = some connection) : connection.stream ∈ st.streams := by
  rw [LoopState.streams, h]
  exact Multiset.mem_add.mpr (.inr (Multiset.mem_singleton_self _))

/-- The active attachment, with other data. -/
theorem streams_active {connection' : Connection} (h : st.active = some connection)
    (hsame : connection'.stream = connection.stream) :
    ({ st with active := some connection' } : LoopState).streams = st.streams := by
  simp only [LoopState.streams, h, Option.map_some, hsame]

/-- The candidate, with other data. -/
theorem streams_candidate {connection' : Connection} (h : st.candidate = some connection)
    (hsame : connection'.stream = connection.stream) :
    ({ st with candidate := some connection' } : LoopState).streams = st.streams := by
  simp only [LoopState.streams, h, Option.map_some, hsame]

/-- The process holds the streams of the state. -/
def Holds (st : LoopState) (s : Peers) : Prop := s = ⟨none, st.streams⟩

/-- A step of the event loop goes from the streams of a state to those of another. -/
abbrev Handles (uid : Nat) (p : Io LoopState) (st : LoopState) : Prop :=
  Gives uid p Holds ⟨none, st.streams⟩

theorem meets_note (note : Note) : Meets uid (AfkCli.note note) (fun _ s' => s' = s) s := by
  have hnote : s.Allowed (.note note) := trivial
  exact (meets_call hnote).mono fun _ _ h => h

/-- What changes the trace alone leaves the streams as they are. -/
theorem meets_tracing {p : Prog (Option Trace)} {q : Option Trace → Prop}
    {Q : LoopState → Peers → Prop} (hp : p.Within (fun _ _ => True) s.Steady q)
    (h : ∀ trace, Q { st with trace } s) :
    Meets uid (p.bind fun trace => .ret { st with trace }) Q s := by
  apply Monitor.follows_bind.mpr
  apply (meets_steady hp).mono
  rintro trace _ ⟨-, rfl⟩
  exact Monitor.follows_ret (h trace)

theorem meets_event {event : String} {Q : LoopState → Peers → Prop}
    (h : ∀ trace, Q { st with trace } s) : Meets uid (ctx.event st event) Q s :=
  meets_tracing (within_traceEvent (steady_traces st.trace) event) h

theorem meets_ioErrorEvent {event : String} {error : IoError} {Q : LoopState → Peers → Prop}
    (h : ∀ trace, Q { st with trace } s) : Meets uid (ctx.ioErrorEvent st event error) Q s :=
  meets_tracing (within_traceIoError (steady_traces st.trace) event error) h

theorem meets_traced {event : String} :
    Meets uid (ctx.event st event) Holds ⟨none, st.streams⟩ := meets_event fun _ => rfl

theorem meets_tracedError {event : String} {error : IoError} :
    Meets uid (ctx.ioErrorEvent st event error) Holds ⟨none, st.streams⟩ :=
  meets_ioErrorEvent fun _ => rfl

/-- An error is traced, and ends the loop. -/
theorem gives_fail {event : String} {error : IoError} {P : α → Peers → Prop} :
    Gives uid (do
      let _ ← ctx.ioErrorEvent st event error
      throw error) P s :=
  gives_lift_bind (meets_ioErrorEvent (Q := fun _ _ => True) fun _ => trivial)
    fun _ _ _ => gives_throw error

theorem meets_dropActive : Meets uid (dropActive st) Holds ⟨none, st.streams⟩ := by
  apply Monitor.follows_bind.mpr
  apply (meets_closeConnection st.active (held (st.candidate.map (·.stream)))).mono
  rintro _ _ rfl
  apply Monitor.follows_ret
  show (⟨none, _⟩ : Peers) = ⟨none, 0 + _⟩
  rw [zero_add]

theorem meets_dropCandidate : Meets uid (dropCandidate st) Holds ⟨none, st.streams⟩ := by
  apply Monitor.follows_bind.mpr
  rw [LoopState.streams, add_comm]
  apply (meets_closeConnection st.candidate _).mono
  rintro _ _ rfl
  apply Monitor.follows_ret
  show (⟨none, _⟩ : Peers) = ⟨none, _ + 0⟩
  rw [add_zero]

theorem handles_event {event : String} : Handles uid (liftM (ctx.event st event)) st :=
  gives_lift meets_traced

/-- A step that is taken or not. -/
theorem handles_if {c : Prop} [Decidable c] {p : Io LoopState} (h : c → Handles uid p st) :
    Handles uid (if c then p else pure st) st := by
  split
  · rename_i hc
    exact h hc
  · exact gives_pure rfl

theorem only_steadyLive (attached : Bool) : Only s.Steady (ctx.writeLive attached) :=
  Surface.only_writeMetadata fun op h => steady_of_streamless op (streamless_of_replaces h)

theorem only_steadyRecords {stream : Fd} (records : List Record) (queue : ByteQueue) :
    Only s.Steady (applyActiveRecords stream queue records) :=
  only_applyActiveRecords (fun _ _ => steady_of_streamless _ trivial)
    (fun _ => steady_of_streamless _ trivial) records queue

theorem handles_drainPty (rounds processed : Nat) :
    Handles uid (ctx.drainPty rounds processed st) st := by
  have hread : ∀ {s : Peers}, Only s.Steady (ask (process (.readPty ioChunkBytes))) :=
    .ask (.perform (steady_of_streamless _ trivial))
  induction rounds generalizing processed st with
  | zero => exact Monitor.follows_spin
  | succ rounds ih =>
    rw [RunnerContext.drainPty]
    split
    · exact gives_pure rfl
    · apply gives_attempt_bind (meets_only hread)
      rintro (error | bytes) _ rfl
      · dsimp only
        split
        · exact gives_pure rfl
        · split
          · exact gives_lift (meets_ioErrorEvent fun _ => rfl)
          · split
            · exact ih _
            · exact gives_fail
      · cases bytes with
        | nil => exact handles_event
        | cons byte bytes =>
          dsimp only
          split
          · show Handles uid (ctx.drainPty rounds _ { st with tail := _ }) { st with tail := _ }
            exact ih _
          · rename_i connection hactive
            split
            · rename_i connection' hqueued
              have hstreams : ({ st with
                  tail := st.tail.extend (byte :: bytes)
                  active := some connection' } : LoopState).streams = st.streams :=
                streams_active hactive (enqueueOutput_ok hqueued).1.stream
              rw [← hstreams]
              exact ih _
            -- the attachment's queue is full: it is dropped, and the terminal read on
            · show Handles uid _ { st with tail := st.tail.extend (byte :: bytes) }
              apply gives_lift_bind meets_dropActive
              rintro st' _ rfl
              exact ih _

/-- A stream that was accepted is the candidate, and replaces the one before; or it is closed. -/
theorem handles_acceptCandidate (huid : ctx.self.uid = uid) (rounds : Nat) :
    Handles uid (ctx.acceptCandidate rounds st) st := by
  have hblocking : ∀ {s : Peers} (stream : Fd), s.Steady (.socket (.setNonblocking stream true)) :=
    fun _ => steady_of_streamless _ trivial
  induction rounds generalizing st with
  | zero => exact Monitor.follows_spin
  | succ rounds ih =>
    have haccept : (⟨none, st.streams⟩ : Peers).Allowed (.socket (.accept ctx.files.listener)) :=
      ⟨rfl, card_streams⟩
    rw [RunnerContext.acceptCandidate]
    apply gives_attempt_bind (meets_call haccept)
    rintro (error | stream) _ rfl
    -- nobody waits, or the listener has failed
    · dsimp only
      split
      · exact gives_pure rfl
      · exact gives_throw error
    · have hask : (⟨some stream, st.streams⟩ : Peers).Allowed (.socket (.peerUid stream)) := rfl
      apply gives_attempt_bind (meets_call hask)
      rintro (error | peer) _ rfl
      · exact gives_lift_bind meets_close_pending fun _ _ _ => gives_throw error
      · dsimp only
        split
        -- another user's stream is closed, and the next one accepted
        · rename_i hpeer
          have hother : (⟨some stream, st.streams⟩ : Peers).learn uid (.socket (.peerUid stream))
              (.ok peer) = ⟨some stream, st.streams⟩ := if_neg (huid ▸ hpeer)
          rw [hother]
          apply gives_lift_bind (meets_event (Q := fun st' s' => s' = ⟨some stream, st'.streams⟩)
            fun _ => rfl)
          rintro st' _ rfl
          apply gives_lift_bind meets_close_pending
          rintro _ _ rfl
          exact ih
        · rename_i hpeer
          have hown : (⟨some stream, st.streams⟩ : Peers).learn uid (.socket (.peerUid stream))
              (.ok peer) = ⟨none, stream ::ₘ st.streams⟩ := if_pos (huid ▸ not_not.mp hpeer)
          rw [hown]
          apply gives_attempt_bind
            (meets_only (.ask (.perform (hblocking stream))))
          rintro (error | _) _ rfl
          · exact gives_lift_bind (meets_close _) fun _ _ _ => gives_throw error
          · apply gives_bind (P := fun st' s' => s' = ⟨none, stream ::ₘ st'.streams⟩)
            · split
              · exact gives_lift (meets_event fun _ => rfl)
              · exact gives_pure rfl
            · rintro st' _ rfl
              apply gives_lift_bind
                (meets_event (Q := fun st' s' => s' = ⟨none, stream ::ₘ st'.streams⟩) fun _ => rfl)
              rintro st' _ rfl
              -- the candidate before is closed, and the new stream takes its place
              rw [LoopState.streams, add_comm, ← Multiset.add_cons]
              apply gives_lift_bind (meets_closeConnection _ _)
              rintro _ _ rfl
              rw [← Multiset.singleton_add, add_comm]
              have hnext := @ih { st' with candidate := some (Connection.new stream) }
              exact hnext

theorem handles_readActive (hactive : st.active = some connection) :
    Handles uid (ctx.readActive connection st) st := by
  unfold RunnerContext.readActive
  apply gives_attempt_bind
    (meets_steady (yields_readRecords fun _ => steady_read (mem_active hactive) _))
  rintro (error | ⟨records, connection'⟩) _ ⟨hsame, rfl⟩
  · apply gives_lift_bind meets_tracedError
    rintro st' _ rfl
    exact gives_lift meets_dropActive
  · apply gives_only_bind (only_steadyRecords _ _)
    rintro ⟨accepted, ptyInput⟩
    have hstreams : ({ st with ptyInput, active := some connection' } : LoopState).streams =
        st.streams := streams_active hactive (hsame _ rfl)
    dsimp only
    split
    · exact gives_pure (congrArg (Peers.mk none) hstreams.symm)
    · rw [← hstreams]
      apply gives_lift_bind meets_traced
      rintro st' _ rfl
      exact gives_lift meets_dropActive

theorem meets_flushPtyInput : Meets uid (ctx.flushPtyInput st) Holds ⟨none, st.streams⟩ := by
  have hwrite : ∀ bytes, Only (⟨none, st.streams⟩ : Peers).Steady (writePty bytes) :=
    fun _ => .ask (.perform (steady_of_streamless _ trivial))
  apply Monitor.follows_bind.mpr
  apply (meets_steady (calls_flushQueue hwrite _ _)).mono
  rintro ⟨ptyInput, error | _⟩ _ ⟨-, rfl⟩
  · apply Monitor.follows_bind.mpr
    show Meets uid _ _ ⟨none, ({ st with ptyInput } : LoopState).streams⟩
    apply meets_tracedError.mono
    rintro st' _ rfl
    exact meets_dropActive
  · exact Monitor.follows_ret rfl

theorem meets_flushActive (hactive : st.active = some connection) :
    Meets uid (ctx.flushActive connection st) Holds ⟨none, st.streams⟩ := by
  have hwrite : ∀ bytes, Only (⟨none, st.streams⟩ : Peers).Steady
      (writeStream connection.stream bytes) :=
    fun _ => .ask (.perform (steady_write (mem_active hactive) _))
  apply Monitor.follows_bind.mpr
  apply (meets_steady (calls_flushQueue hwrite _ _)).mono
  rintro ⟨output, error | _⟩ _ ⟨-, rfl⟩
  · apply Monitor.follows_bind.mpr
    apply meets_tracedError.mono
    rintro st' _ rfl
    exact meets_dropActive
  · apply Monitor.follows_ret
    exact congrArg (Peers.mk none) (streams_active hactive rfl).symm

theorem handles_handleActive (event : PollFlags) : Handles uid (ctx.handleActive event st) st := by
  unfold RunnerContext.handleActive
  apply gives_bind (handles_if fun _ => handles_event)
  rintro st _ rfl
  apply gives_bind (handles_if fun _ => handles_event)
  rintro st _ rfl
  apply gives_bind (P := Holds)
  · unfold RunnerContext.writeIfReady
    split
    · rename_i connection hactive
      exact handles_if fun _ => gives_lift (meets_flushActive hactive)
    · exact gives_pure rfl
  rintro st _ rfl
  apply gives_bind (P := Holds)
  · unfold RunnerContext.readIfReady
    split
    · rename_i connection hactive
      exact handles_if fun _ => handles_readActive hactive
    · exact gives_pure rfl
  rintro st _ rfl
  apply gives_only_bind
  · split
    · exact only_steadyLive false
    · exact .pure _
  · intro _
    exact gives_pure rfl

/-- The connection of an `Attach` takes the place of the active attachment, or is closed. -/
theorem handles_activate {rows columns : UInt16} {remaining : List Record} :
    Gives uid (ctx.activate connection rows columns remaining st) Holds
      ⟨none, connection.stream ::ₘ st.streams⟩ := by
  unfold RunnerContext.activate
  apply gives_only_bind (only_setWindowSize fun _ _ => steady_of_streamless _ trivial)
  intro _
  apply gives_ask_bind
  intro connection' hreplay
  have hsame : connection'.stream = connection.stream := (enqueueReplay_same hreplay).stream
  apply gives_only_bind (only_steadyRecords _ _)
  rintro ⟨accepted, ptyInput⟩
  dsimp only
  split
  -- the attachment before is closed, and replaced
  · apply gives_bind (P := fun st' s' => s' = ⟨none, connection.stream ::ₘ st'.streams⟩)
    · split
      · exact gives_lift (meets_event fun _ => rfl)
      · exact gives_pure rfl
    rintro st _ rfl
    apply gives_lift_bind
      (meets_event (Q := fun st' s' => s' = ⟨none, connection.stream ::ₘ st'.streams⟩) fun _ => rfl)
    rintro st _ rfl
    apply gives_lift_bind (meets_note _)
    rintro _ _ rfl
    rw [LoopState.streams, ← Multiset.add_cons]
    apply gives_lift_bind (meets_closeConnection _ _)
    rintro _ _ rfl
    apply gives_only_bind (only_steadyLive true)
    intro _
    apply gives_pure
    show (⟨none, _ ::ₘ _⟩ : Peers) = ⟨none, {connection'.stream} + _⟩
    rw [hsame, Multiset.singleton_add]
  -- records that are out of protocol came with the `Attach`: the new connection is closed
  · rw [hsame]
    apply gives_lift_bind (meets_close _)
    rintro _ _ rfl
    exact gives_pure rfl

/-- The state after a step that may stop the session. -/
def HoldsNext (r : Bool × LoopState) (s : Peers) : Prop := Holds r.2 s

theorem handles_handleCandidate (hcandidate : st.candidate = some connection) :
    Gives uid (ctx.handleCandidate connection st) HoldsNext ⟨none, st.streams⟩ := by
  have hdismiss : Gives uid (ctx.dismissCandidate st) HoldsNext ⟨none, st.streams⟩ := by
    apply gives_lift_bind meets_traced
    rintro st _ rfl
    apply gives_lift_bind meets_dropCandidate
    rintro st _ rfl
    exact gives_pure rfl
  unfold RunnerContext.handleCandidate
  apply gives_attempt_bind
    (meets_steady (yields_readRecords fun _ => steady_read (mem_candidate hcandidate) _))
  rintro (error | ⟨records, connection'⟩) _ ⟨hsame, rfl⟩
  · apply gives_lift_bind meets_tracedError
    rintro st _ rfl
    apply gives_lift_bind meets_dropCandidate
    rintro st _ rfl
    exact gives_pure rfl
  · have hstream : connection'.stream = connection.stream := hsame _ rfl
    cases records with
    | nil => exact gives_pure (congrArg (Peers.mk none) (streams_candidate hcandidate hstream).symm)
    | cons record remaining =>
      cases record with
      | attach rows columns =>
        have hstreams : st.streams =
            connection'.stream ::ₘ ({ st with candidate := none } : LoopState).streams := by
          simp only [LoopState.streams, hcandidate, Option.map_some, Option.map_none, held, hstream]
          rw [add_zero, add_comm, Multiset.singleton_add]
        rw [hstreams]
        apply gives_bind handles_activate
        rintro st _ rfl
        exact gives_pure rfl
      | stop =>
        cases remaining with
        | nil =>
          apply gives_lift_bind meets_traced
          rintro st _ rfl
          apply gives_lift_bind meets_dropCandidate
          rintro st _ rfl
          apply gives_lift_bind (meets_note _)
          rintro _ _ rfl
          exact gives_pure rfl
        | cons => exact hdismiss
      | input bytes => exact hdismiss
      | resize rows columns => exact hdismiss
      | output bytes => exact hdismiss
      | exit status => exact hdismiss

theorem handles_handleEvents {events : PollReply} {request : PollRequest}
    (huid : ctx.self.uid = uid) :
    Gives uid (ctx.handleEvents events request st) HoldsNext ⟨none, st.streams⟩ := by
  unfold RunnerContext.handleEvents
  apply gives_bind (handles_if fun _ => gives_lift meets_flushPtyInput)
  rintro st _ rfl
  apply gives_bind (handles_if fun _ => handles_handleActive _)
  rintro st _ rfl
  apply gives_bind (handles_if fun _ => handles_acceptCandidate huid _)
  rintro st _ rfl
  -- the candidate that was polled may have been replaced by now
  split
  · split
    · rename_i connection hcandidate
      exact handles_handleCandidate hcandidate
    · exact gives_pure rfl
  · exact gives_pure rfl

/-- What a turn of the loop comes to. -/
def Turned : Turn → Peers → Prop
  | .again st, s => Holds st s
  | .exited st _, s => Holds st s
  | .stopRequested st, s => Holds st s

/-- The attachment was dropped already, when its queue was found full. -/
theorem handles_outputQueueFull : Handles uid (ctx.outputQueueFull st) st := by
  apply gives_lift_bind meets_traced
  rintro st _ rfl
  apply gives_only_bind (only_steadyLive false)
  intro _
  exact gives_pure rfl

/-- **A turn of the event loop**: what is polled is what is held. -/
theorem handles_tick (huid : ctx.self.uid = uid) :
    Gives uid (ctx.tick st) Turned ⟨none, st.streams⟩ := by
  unfold RunnerContext.tick
  apply gives_bind (handles_drainPty _ _)
  rintro st _ rfl
  apply gives_bind (handles_if fun _ => handles_outputQueueFull)
  rintro st _ rfl
  have hwait : Only (⟨none, st.streams⟩ : Peers).Steady (ask (process .tryWait)) :=
    .ask (.perform (steady_of_streamless _ trivial))
  apply gives_only_bind hwait
  rintro (_ | status)
  · have hpoll : (⟨none, st.streams⟩ : Peers).Steady
        (.process (.poll (RunnerContext.pollRequest st))) :=
      ⟨congrArg (Peers.mk none) polled_pollRequest.symm, fun _ _ => rfl⟩
    apply gives_attempt_bind (meets_only (.ask (.perform hpoll)))
    rintro (error | events) _ rfl
    · dsimp only
      split
      · exact gives_pure rfl
      · exact gives_fail
    · apply gives_bind (handles_handleEvents huid)
      rintro ⟨stop, st⟩ _ rfl
      cases stop with
      | false => exact gives_pure rfl
      | true => exact gives_pure rfl
  · apply gives_lift_bind meets_traced
    rintro st _ rfl
    exact gives_pure rfl

/-- How the loop ends. -/
def Left : Turn → Peers → Prop
  | .again _, _ => False
  | .exited st _, s => Holds st s
  | .stopRequested st, s => Holds st s

theorem gives_eventLoop (huid : ctx.self.uid = uid) (rounds : Nat) :
    Gives uid (ctx.eventLoop rounds st) Left ⟨none, st.streams⟩ := by
  induction rounds generalizing st with
  | zero => exact Monitor.follows_spin
  | succ rounds ih =>
    rw [RunnerContext.eventLoop]
    apply gives_bind (handles_tick huid)
    intro turn s' hturn
    cases turn with
    | again st =>
      obtain rfl := hturn
      exact ih
    | exited st exit => exact gives_pure hturn
    | stopRequested st => exact gives_pure hturn

/-! ## The end of a session -/

theorem only_steadyDrop (hctx : Hosting self session ctx) : Only s.Steady ctx.files.drop :=
  Surface.only_drop (fun op (_ : Hosts self session op) h => steady_of_streamless op h) hctx.paths

theorem only_steadyStop (session : SessionId) (self : Self) : Only s.Steady ctx.stopChild :=
  Surface.only_stopChild fun op (_ : Hosts self session op) h => steady_of_streamless op h

theorem gives_abandon (hctx : Hosting self session ctx) (error : IoError)
    {P : Unit → Peers → Prop} : Gives uid (ctx.abandon error) P s := by
  have hclose : Only s.Steady (liftM (process .closePty)) :=
    .lift (.perform (steady_of_streamless _ trivial))
  unfold RunnerContext.abandon
  apply gives_only_bind hclose
  intro _
  apply gives_only_bind (only_steadyDrop hctx)
  intro _
  exact gives_throw error

/-- The active attachment is told, and dropped; the candidate stays. -/
theorem gives_completeSession (hctx : Hosting self session ctx) (exit : ProcessExit) :
    Gives uid (ctx.completeSession st exit)
      (fun _ s' => s' = ⟨none, held (st.candidate.map (·.stream))⟩) ⟨none, st.streams⟩ := by
  have hreplaces : ∀ {s : Peers} {name : Name} {bytes : Bytes} (op : Call),
      Replaces ctx.self name bytes op → s.Steady op :=
    fun op h => steady_of_streamless op (streamless_of_replaces h)
  have hremove : ∀ {s : Peers} (name : Name),
      Only s.Steady (ignore (ask (file (.removeFile .removeLiveFiles name)))) :=
    fun _ => .ignore (.ask (.perform (steady_of_streamless _ trivial)))
  have hnow : ∀ {s : Peers}, Only s.Steady (nowSeconds .completeSession) :=
    .ask (.perform (steady_of_streamless _ trivial))
  unfold RunnerContext.completeSession
  apply gives_attempt_bind (meets_only ?_)
  · rintro (error | _) _ rfl
    -- an attachment that cannot be told of a stored exit is told nothing
    · apply gives_lift_bind (meets_closeConnection _ _)
      rintro _ _ rfl
      apply gives_only_bind (only_steadyDrop hctx)
      intro _
      exact gives_throw error
    · dsimp only
      apply gives_only_bind
      · unfold Registry.removeLiveFiles
        exact Only.bind (hremove _) fun _ => hremove _
      intro _
      apply gives_only_bind (only_steadyDrop hctx)
      intro _
      split
      · rename_i hactive
        apply gives_pure
        rw [LoopState.streams, hactive]
        exact congrArg (Peers.mk none) (zero_add _)
      · rename_i connection hactive
        have hmem : connection.stream ∈ (⟨none, st.streams⟩ : Peers).known := mem_active hactive
        have hsends : Only (⟨none, st.streams⟩ : Peers).Steady (ctx.sendExit connection exit) :=
          Calls.of_within (within_sendExit (steady_sends hmem))
        apply gives_only_bind hsends
        intro _
        rw [LoopState.streams, hactive]
        show Gives uid _ _ ⟨none, {connection.stream} + _⟩
        rw [Multiset.singleton_add]
        exact gives_lift (meets_close _)
  · refine Only.bind (Surface.only_writeOutput hreplaces) fun _ => ?_
    refine Only.bind hnow fun finishedAt => ?_
    exact Surface.only_writeMetadata hreplaces

theorem gives_runEventLoop (hctx : Hosting self session ctx) (huid : ctx.self.uid = uid) :
    Gives uid (ctx.runEventLoop st) (fun _ s' => s' = start) ⟨none, st.streams⟩ := by
  have hclosePty : ∀ {s : Peers}, Calls s.Steady (process .closePty) :=
    .perform (steady_of_streamless _ trivial)
  have hexit : ∀ {s : Peers} {trace : Option Trace} {exit : ProcessExit},
      Calls s.Steady (traceProcessExit ctx.self trace "session_completed" exit) :=
    .of_within (within_traceProcessExit (steady_traces _) _ _)
  have hlast : ∀ candidate : Option Connection, Meets uid (closeConnection candidate)
      (fun _ s' => s' = start) ⟨none, held (candidate.map (·.stream))⟩ := by
    intro candidate
    rw [← add_zero (held _)]
    exact meets_closeConnection candidate 0
  unfold RunnerContext.runEventLoop
  apply gives_attempt_bind (gives_eventLoop huid _)
  rintro (error | turn) s hturn
  · exact gives_abandon hctx error
  · replace hturn := hturn turn rfl
    cases turn with
    | again st => exact hturn.elim
    | exited st exit =>
      obtain rfl := hturn
      -- the last output may still fill the attachment's queue
      apply gives_attempt_bind (handles_drainPty _ _)
      rintro (error | st) s hst
      · exact gives_abandon hctx error
      · obtain rfl := hst st rfl
        apply gives_only_bind (.lift hexit)
        intro trace
        show Gives uid _ _ ⟨none, ({ st with trace } : LoopState).streams⟩
        apply gives_bind (gives_completeSession hctx exit)
        rintro _ _ rfl
        apply gives_lift_bind (hlast st.candidate)
        rintro _ _ rfl
        apply gives_lift
        exact (meets_steady hclosePty).mono fun _ _ h => h.2
    | stopRequested st =>
      obtain rfl := hturn
      apply gives_only_bind (.lift hclosePty)
      intro _
      apply gives_attempt_bind (meets_only (only_steadyStop session self))
      rintro (error | status) _ rfl
      -- the runner fails, and logs only that it drops the attachment
      · apply gives_lift_bind (meets_closeConnection _ _)
        rintro _ _ rfl
        apply gives_only_bind (only_steadyDrop hctx)
        intro _
        exact gives_throw error
      · apply gives_only_bind (.lift hexit)
        intro trace
        show Gives uid _ _ ⟨none, ({ st with trace } : LoopState).streams⟩
        apply gives_bind (gives_completeSession hctx _)
        rintro _ _ rfl
        exact gives_lift (hlast st.candidate)

end loop

/-! ## Connecting -/

section connecting

variable {uid : Nat} {s : Peers} {R : Registry} {session : SessionId} {serde : Serde} {self : Self}
  {trace : Option Trace}

/-- A stream that was connected to leads to a process of the user. -/
def Joined (r : Except IoError Fd) (s : Peers) : Prop :=
  match r with
  | .ok stream => s = ⟨none, {stream}⟩
  | .error _ => s = start

theorem meets_connect (huid : R.uid = uid) :
    Meets uid (R.connect session).run Joined start := by
  unfold Registry.connect
  by_cases hfits : R.Fits session
  · rw [Registry.paths_eq hfits, pure_bind]
    apply follows_seq _ (meets_only (Surface.only_verifyPath (steady_of_streamless _ trivial)))
    · rintro metadata _ rfl
      have hconnect : start.Allowed (.socket (.connect (sessionPaths session).socket)) := rfl
      apply follows_seq _ (meets_call hconnect)
      · rintro stream _ rfl
        -- somebody may have put a socket of his own under the name since it was verified
        have hask : (⟨some stream, 0⟩ : Peers).Allowed (.socket (.peerUid stream)) := rfl
        apply follows_attempt_bind.mpr
        apply (meets_call hask).mono
        rintro (error | peer) _ rfl
        · apply follows_lift_bind.mpr
          apply meets_close_pending.mono
          rintro _ _ rfl
          exact Monitor.follows_ret rfl
        · dsimp only
          split
          · rename_i hpeer
            have hother : (⟨some stream, 0⟩ : Peers).learn uid (.socket (.peerUid stream))
                (.ok peer) = ⟨some stream, 0⟩ := if_neg (huid ▸ hpeer)
            rw [hother]
            apply follows_lift_bind.mpr
            apply meets_close_pending.mono
            rintro _ _ rfl
            exact Monitor.follows_ret rfl
          · rename_i hpeer
            exact Monitor.follows_ret (if_pos (huid ▸ not_not.mp hpeer))
      · rintro error _ rfl
        exact rfl
    · rintro error _ rfl
      exact rfl
  · rw [Registry.paths_error hfits]
    exact Monitor.follows_ret rfl

theorem gives_connectIsOk (huid : R.uid = uid) :
    Gives uid (R.connectIsOk session) (fun _ s' => s' = start) start := by
  unfold Registry.connectIsOk
  apply gives_attempt_bind (meets_connect huid)
  rintro (error | stream) s hjoined
  · exact gives_pure hjoined
  · obtain rfl := hjoined
    apply gives_lift_bind (meets_close 0)
    rintro _ _ rfl
    exact gives_pure rfl

theorem steady_takes (op : Call) (_ : Takes session op) (h : Streamless op) :
    s.Steady op := steady_of_streamless op h

theorem gives_only {α : Type} {p : Io α} (hp : Only s.Steady p) :
    Gives uid p (fun _ s' => s' = s) s :=
  (meets_only hp).mono fun _ _ h _ _ => h

/-- A probe, and what follows when it fails. -/
theorem gives_probe (huid : R.uid = uid) :
    Gives uid (do
      if ← R.connectIsOk session then throw sessionExists
      else R.removeStaleLive (sessionPaths session)) (fun _ s' => s' = start) start := by
  apply gives_bind (gives_connectIsOk huid)
  rintro connected _ rfl
  split
  · exact gives_throw _
  · exact gives_only (Surface.only_removeStaleLive fun op _ => steady_of_streamless op)

theorem gives_clearSession (huid : R.uid = uid) :
    Gives uid (R.clearSession session (sessionPaths session)) (fun _ s' => s' = start) start := by
  have hnow : Only start.Steady (nowSeconds .bindSession) :=
    .ask (.perform (steady_of_streamless _ trivial))
  unfold Registry.clearSession
  apply gives_only_bind (Surface.only_readMetadata steady_looks)
  rintro (_ | metadata)
  · dsimp only
    apply gives_only_bind (Surface.only_pathEntryExists steady_looks)
    intro hasSocket
    split
    · exact gives_probe huid
    · apply gives_only_bind (Surface.only_pathEntryExists steady_looks)
      intro hasLock
      split
      · exact gives_probe huid
      · exact gives_pure rfl
  · dsimp only
    apply gives_only_bind hnow
    intro now
    split
    · exact gives_only (Surface.only_removeCompleted fun _ _ => steady_of_streamless _ trivial)
    · split
      · exact gives_throw _
      · exact gives_probe huid

theorem gives_bindSession (huid : R.uid = uid) :
    Gives uid (R.bindSession session)
      (fun files s' => files.paths = sessionPaths session ∧ s' = start) start := by
  unfold Registry.bindSession
  by_cases hfits : R.Fits session
  · rw [Registry.paths_eq hfits, pure_bind]
    apply gives_bind (gives_clearSession huid)
    rintro _ _ rfl
    apply gives_attempt_bind (meets_only (Surface.only_bindListener steady_takes))
    rintro (error | listener) _ rfl
    · dsimp only
      split
      · exact gives_throw _
      · exact gives_throw _
    · exact gives_yields (yields_lockSession steady_takes)
  · rw [Registry.paths_error hfits]
    exact gives_throw _

/-! ## Clients -/

/-- First something that leaves the streams as they are. -/
theorem meets_only_bind {α β : Type} {p : Io α} {f : α → Io β} (hp : Only s.Steady p)
    (hf : ∀ a, Meets uid (f a).run (fun _ s' => s' = s) s) :
    Meets uid (p >>= f).run (fun _ s' => s' = s) s := by
  apply follows_seq _ (meets_only hp)
  · rintro a _ rfl
    exact hf a
  · intro _ _ h
    exact h

/-- What follows the opening of the registry, which is the user's own. -/
theorem meets_opened {α : Type} {f : Registry → Io α}
    (hf : ∀ R, R.uid = self.uid → Meets self.uid (f R).run (fun _ s' => s' = start) start) :
    Meets self.uid (openRegistry serde self >>= f).run (fun _ s' => s' = start) start := by
  apply follows_seq _ (meets_steady (yields_openRegistry steady_opens))
  · rintro R _ ⟨hopen, rfl⟩
    exact hf R (hopen R rfl).2
  · rintro _ _ ⟨-, rfl⟩
    exact rfl

theorem steady_joins (self : Self) (session : SessionId) (op : Call) (_ : Joins self session op)
    (h : Streamless op) : s.Steady op := steady_of_streamless op h

theorem meets_attachLive (session : SessionId) {stream : Fd} (h : Named "attachment" trace) :
    Meets uid (attachLive self stream trace).run (fun _ s' => s' = start) ⟨none, {stream}⟩ := by
  unfold attachLive
  apply follows_attempt_bind.mpr
  apply (meets_only (Surface.only_relaying (steady_joins self session) steady_attends h)).mono
  rintro result _ rfl
  apply follows_lift_bind.mpr
  apply (meets_close 0).mono
  rintro _ _ rfl
  exact Monitor.follows_ret rfl

theorem meets_attach (session : SessionId) (traceEnabled : Bool) :
    Meets self.uid (attach serde self session traceEnabled).run (fun _ s' => s' = start)
      start := by
  apply meets_opened
  intro R huid
  apply follows_seq _ (meets_steady (Surface.yields_attachmentTrace (steady_joins self session)))
  · rintro trace _ ⟨hnamed, rfl⟩
    apply follows_lift_bind.mpr
    apply (meets_steady (within_event steady_namedTraces (hnamed trace rfl) (by decide))).mono
    rintro trace _ ⟨hnamed, rfl⟩
    apply follows_attempt_bind.mpr
    apply (meets_connect huid).mono
    rintro (error | stream) s hjoined
    -- no stream is held: the record is shown, if there is one
    · obtain rfl : s = start := hjoined
      apply follows_lift_bind.mpr
      apply (meets_steady (within_traceIoError (steady_traces trace) _ error)).mono
      rintro trace _ ⟨-, rfl⟩
      apply meets_only
      refine Only.bind (Surface.only_readMetadata steady_looks) fun metadata => ?_
      split
      · refine Only.bind (Surface.only_replayCompleted (steady_joins self session)) fun exit => ?_
        refine Only.bind (.lift ?_) fun _ => .pure _
        exact .of_within (within_traceProcessExit (steady_traces trace) _ exit)
      · exact .throw _
    · obtain rfl : s = ⟨none, {stream}⟩ := hjoined
      apply follows_lift_bind.mpr
      apply (meets_steady (within_event steady_namedTraces hnamed (by decide))).mono
      rintro trace _ ⟨hnamed, rfl⟩
      exact meets_attachLive session hnamed
  · rintro _ _ ⟨-, rfl⟩
    exact rfl

/-- A client that starts the runner attaches after it has answered. -/
theorem meets_startSession (session : SessionId) (traceEnabled : Bool) (argv : List Bytes) :
    Meets self.uid (startSession serde self session traceEnabled argv).run
      (fun _ s' => s' = start) start := by
  have hsize : Calls start.Steady windowSizeOrDefault :=
    calls_windowSizeOrDefault (steady_of_streamless _ trivial)
  unfold startSession
  apply follows_lift_bind.mpr
  apply (meets_steady hsize).mono
  rintro ⟨rows, columns⟩ _ ⟨-, rfl⟩
  apply follows_attempt_bind.mpr
  apply (meets_only (Surface.only_launchRunner (steady_joins self session))).mono
  rintro (error | _) _ rfl
  · dsimp only
    split
    · exact meets_attach session traceEnabled
    · exact Monitor.follows_ret rfl
  · exact meets_attach session traceEnabled

theorem meets_connectOrStart (session : SessionId) (traceEnabled : Bool) (argv : List Bytes) :
    Meets self.uid (connectOrStart serde self session traceEnabled argv).run
      (fun _ s' => s' = start) start := by
  unfold connectOrStart
  apply follows_attempt_bind.mpr
  apply (meets_attach session traceEnabled).mono
  rintro (connectError | status) _ rfl
  · dsimp only
    split
    · exact Monitor.follows_ret rfl
    · apply meets_opened
      intro R _
      apply meets_only_bind (Surface.only_readMetadata steady_looks)
      rintro (_ | metadata)
      · exact meets_startSession session traceEnabled argv
      · exact Monitor.follows_ret rfl
  · exact Monitor.follows_ret rfl

theorem meets_stop (session : SessionId) :
    Meets self.uid (stop serde self session).run (fun _ s' => s' = start) start := by
  apply meets_opened
  intro R huid
  apply follows_seq _ (meets_connect huid)
  · intro stream s hjoined
    obtain rfl : s = ⟨none, {stream}⟩ := hjoined
    have hmem : stream ∈ (⟨none, {stream}⟩ : Peers).known := Multiset.mem_singleton_self stream
    apply follows_attempt_bind.mpr
    apply (meets_only (only_asking (steady_write hmem) (steady_read hmem)
      ⟨hmem, fun _ _ => rfl⟩)).mono
    rintro result _ rfl
    apply follows_lift_bind.mpr
    apply (meets_close 0).mono
    rintro _ _ rfl
    exact Monitor.follows_ret rfl
  · intro _ _ hjoined
    exact hjoined

theorem meets_sessions (json : Bool) :
    Meets self.uid (Entry.sessions serde self json).run (fun _ s' => s' = start) start := by
  apply meets_opened
  intro R _
  exact meets_only (Custody.only_listing steady_looks (steady_of_streamless _ trivial)
    fun _ => steady_of_streamless _ trivial)

/-! ## The runner -/

theorem gives_serve {ctx : RunnerContext} (hctx : Hosting self session ctx) :
    Gives self.uid (ctx.serve trace) (fun _ s' => s' = start) start := by
  have hnonblocking : Only start.Steady (ask (process .setPtyNonblocking)) :=
    .ask (.perform (steady_of_streamless _ trivial))
  unfold RunnerContext.serve
  apply gives_attempt_bind (meets_only hnonblocking)
  rintro (error | _) _ rfl
  · exact gives_abandon hctx error
  · show Gives _ _ _ ⟨none, (LoopState.start trace).streams⟩
    exact gives_runEventLoop hctx (congrArg Self.uid hctx.own)

theorem gives_startRunner {config : StartupConfig} :
    Gives self.uid (startRunner serde self session config) (fun _ s' => s' = start) start := by
  have hhosts : ∀ op, Hosts self session op → Streamless op → start.Steady op :=
    fun op _ h => steady_of_streamless op h
  have hsetsid : Only start.Steady (ask (process .setsid)) :=
    .ask (.perform (steady_of_streamless _ trivial))
  have humask : Only start.Steady (liftM (process (.umask 0o077))) :=
    .lift (.perform (steady_of_streamless _ trivial))
  unfold startRunner
  apply gives_only_bind hsetsid
  intro _
  apply gives_only_bind humask
  intro _
  apply gives_bind (gives_yields (yields_openRegistry steady_opens))
  rintro R _ ⟨⟨-, huid⟩, rfl⟩
  apply gives_bind (gives_bindSession huid)
  rintro files _ ⟨hpaths, rfl⟩
  apply gives_attempt_bind (meets_steady (Surface.yields_prepareRunner hhosts hpaths))
  rintro (error | ⟨ctx, trace⟩) _ ⟨hready, rfl⟩
  · apply gives_only_bind (Surface.only_drop hhosts hpaths)
    intro _
    exact gives_throw error
  · exact gives_serve (hready _ rfl).1

theorem gives_hiddenRunner :
    Gives self.uid (hiddenRunner serde self session) (fun _ s' => s' = start) start := by
  have hrespond : ∀ {s : Peers} (response : UInt8),
      Only s.Steady (ignore (ask (process (.sendResponse response)))) :=
    fun _ => .ignore (.ask (.perform (steady_of_streamless _ trivial)))
  have hconfig : Only start.Steady (do
      let bytes ← ask (process .recvStartup)
      ask (.ret (readStartupConfig bytes))) :=
    Only.bind (.ask (.perform (steady_of_streamless _ trivial))) fun _ => .ask (.ret _)
  unfold hiddenRunner
  apply gives_attempt_bind (meets_only hconfig)
  rintro (error | config) _ rfl
  · apply gives_only_bind (hrespond _)
    intro _
    exact gives_throw error
  · apply gives_attempt_bind gives_startRunner
    rintro (error | _) s hstarted
    · apply gives_only_bind (hrespond _)
      intro _
      exact gives_throw error
    · exact gives_pure (hstarted () rfl)

end connecting

/-! ## The program -/

section process

variable {uid : Nat} {s s' : Peers} {serde : Serde} {self : Self} {α : Type}

/-- From the state `s`, the whole process uses only streams of its own user. -/
abbrev ProcessMeets (uid : Nat) (p : Entry.MainProg α) (Q : α → Peers → Prop) (s : Peers) : Prop :=
  ((meeting uid).widen : Monitor (Call ⊕ Entry.OuterCall) _ _).Follows (fun _ _ _ => True) p Q s

theorem processMeets_command {p : Io α} {Q : Except IoError α → Peers → Prop}
    (h : Meets uid p.run Q s) : ProcessMeets uid (Entry.command p).run Q s := h.widen

theorem processMeets_only {p : Io α} (hp : Only s.Steady p) :
    ProcessMeets uid (Entry.command p).run (fun _ s' => s' = s) s :=
  processMeets_command (meets_only hp)

theorem processMeets_outer (call : Entry.OuterCall) :
    ProcessMeets uid (Entry.outer call) (fun _ s' => s' = s) s := fun _ _ => ⟨s, rfl, rfl⟩

theorem processMeets_write (bytes : Bytes) :
    ProcessMeets uid (Entry.writeAllOutput bytes).run (fun _ s' => s' = s) s :=
  processMeets_only (.ask (.perform (steady_of_streamless _ trivial)))

/-- A stream is left only by a runner that fails. -/
def Parted (parsed : Except ParseError Command) (status : Entry.ExitStatus) (s : Peers) : Prop :=
  (status = .success ∨ ∀ session, parsed ≠ .ok (.hiddenRunner session)) → s = start

/-- The result of a command. -/
def Leaves (command : Command) (r : Except IoError Entry.ExitStatus) (s : Peers) : Prop :=
  ((∃ status, r = .ok status) ∨ ∀ session, command ≠ .hiddenRunner session) → s = start

theorem leaves_command {command : Command} {p : Io α} {status : α → Entry.ExitStatus}
    (h : Meets uid p.run (fun _ s' => s' = start) start) :
    ProcessMeets uid (Entry.command p >>= fun a => pure (status a) : Entry.MainIo _).run
      (Leaves command) start := by
  apply Entry.process_seq _ (processMeets_command h)
  · intro a s' hs
    exact Monitor.follows_ret fun _ => hs
  · intro _ _ hs _
    exact hs

theorem leaves_hiddenChild {argv : List Bytes} :
    ProcessMeets uid (Entry.sessionCommand serde self (.hiddenChild argv)).run
      (Leaves (.hiddenChild argv)) start := by
  have hsetsid : Only start.Steady (ask (process .setsid)) :=
    .ask (.perform (steady_of_streamless _ trivial))
  apply Entry.process_seq (fun _ s' => s' = start)
  · unfold Entry.hiddenChild
    apply Entry.process_seq _ (processMeets_only hsetsid)
    · rintro _ _ rfl
      apply Entry.process_seq _ (processMeets_outer _)
      · rintro _ _ rfl
        split
        · exact Monitor.follows_ret rfl
        · apply Monitor.follows_bind.mpr
          apply Monitor.follows_bind.mpr
          exact (processMeets_outer (.exec argv)).mono fun _ _ h => h
      · intro _ _ h
        exact h
    · intro _ _ h
      exact h
  · intro _ _ h
    exact Monitor.follows_ret fun _ => h
  · intro _ _ h _
    exact h

theorem leaves_sessionCommand (command : Command) :
    ProcessMeets self.uid (Entry.sessionCommand serde self command).run (Leaves command) start := by
  cases command with
  | session session trace argv => exact leaves_command (meets_connectOrStart session trace argv)
  | sessions json => exact leaves_command (meets_sessions json)
  | stop session => exact leaves_command (meets_stop session)
  | hiddenRunner session =>
    apply Entry.process_seq _ (processMeets_command gives_hiddenRunner)
    · intro _ s' hserved
      exact Monitor.follows_ret fun _ => hserved () rfl
    · rintro error s' - (⟨status, hstatus⟩ | hclient)
      · cases hstatus
      · exact absurd rfl (hclient session)
  | hiddenChild argv => exact leaves_hiddenChild
  | help => exact Monitor.follows_ret fun _ => rfl
  | version => exact Monitor.follows_ret fun _ => rfl

theorem parted_runSessionCommand (command : Command) :
    ProcessMeets self.uid (Entry.runSessionCommand serde self command) (Parted (.ok command))
      start := by
  unfold Entry.runSessionCommand
  apply Monitor.follows_bind.mpr
  apply (leaves_sessionCommand command).mono
  rintro (error | status) s' hleaves
  · apply Monitor.follows_bind.mpr
    apply (processMeets_outer _).mono
    rintro _ _ rfl
    apply Monitor.follows_ret
    rintro (hstatus | hclient)
    · cases hstatus
    · apply hleaves
      right
      rintro session rfl
      exact hclient session rfl
  · exact Monitor.follows_ret fun _ => hleaves (.inl ⟨status, rfl⟩)

theorem parted_usage {parsed : Except ParseError Command} (message : Bytes) :
    ProcessMeets uid (Entry.writeUsageError message) (Parted parsed) start := by
  apply Monitor.follows_bind.mpr
  apply (processMeets_outer _).mono
  rintro (error | _) _ rfl
  · exact Monitor.follows_ret fun _ => rfl
  · exact Monitor.follows_ret fun _ => rfl

theorem parted_run (arguments : List Bytes) :
    ProcessMeets self.uid (Entry.run serde self arguments) (Parted (parse arguments)) start := by
  unfold Entry.run
  cases parse arguments with
  | error error => cases error <;> exact parted_usage _
  | ok command =>
    cases command with
    | help =>
      apply Monitor.follows_bind.mpr
      apply (processMeets_write _).mono
      rintro (error | _) _ rfl
      · exact Monitor.follows_ret fun _ => rfl
      · exact Monitor.follows_ret fun _ => rfl
    | version =>
      apply Monitor.follows_bind.mpr
      apply Monitor.Follows.mono (Q := fun _ s' => s' = start)
      · apply Entry.process_seq _ (processMeets_write _)
        · rintro _ _ rfl
          apply Entry.process_seq _ (processMeets_write _)
          · rintro _ _ rfl
            exact processMeets_write _
          · intro _ _ h
            exact h
        · intro _ _ h
          exact h
      · rintro (error | _) _ rfl
        · exact Monitor.follows_ret fun _ => rfl
        · exact Monitor.follows_ret fun _ => rfl
    | session session trace argv => exact parted_runSessionCommand _
    | sessions json => exact parted_runSessionCommand _
    | stop session => exact parted_runSessionCommand _
    | hiddenRunner session => exact parted_runSessionCommand _
    | hiddenChild argv => exact parted_runSessionCommand _

/-- An attachment, a candidate, and a stream whose user is not known. -/
theorem card_next {op : Call} {r : op.Answer} (h : s.streams.card ≤ 3)
    (hnext : s.next uid op r = some s') : s'.streams.card ≤ 3 := by
  have hcard : ∀ s : Peers, s.streams.card = (held s.pending).card + s.known.card :=
    fun s => Multiset.card_add _ _
  by_cases hallowed : s.Allowed op
  · rw [next, if_pos hallowed] at hnext
    obtain rfl := Option.some.inj hnext
    rw [hcard] at h ⊢
    unfold learn
    -- only an accept and a connect add a stream, and only where there is room
    split
    · exact Nat.add_le_add (card_held _) hallowed.2
    · obtain rfl : s = start := hallowed
      exact Nat.add_le_add (card_held _) (Nat.zero_le 2)
    · split
      · have hpending : s.pending = some _ := hallowed
        rw [hpending] at h
        rw [Multiset.card_cons]
        exact h.trans' (by simp only [held, Multiset.card_zero, Multiset.card_singleton]; omega)
      · exact h
    · split
      · exact h.trans' (Nat.add_le_add_right (Nat.zero_le _) _)
      · exact h.trans' (Nat.add_le_add_left (Multiset.card_erase_le) _)
    · exact h
  · rw [next, if_neg hallowed] at hnext
    cases hnext

theorem card_after
    {log : Log (Call ⊕ Entry.OuterCall) (Sum.elim Call.Answer Entry.OuterCall.Answer)}
    (h : ((meeting uid).widen : Monitor (Call ⊕ Entry.OuterCall) _ _).after log = some s) :
    s.streams.card ≤ 3 := by
  refine Monitor.invariant _ (P := fun _ s => s.streams.card ≤ 3) (Nat.zero_le 3) ?_ h
  rintro log s (op | op) r s' hcard hnext
  · exact card_next hcard hnext
  · obtain rfl := Option.some.inj hnext
    exact hcard

end process

end Peers

/-- **Every run of the program uses only streams of its own user**, whatever its calls are answered.
Of a stream that it has accepted, or connected to, it asks for the user; it reads, writes and polls
only when that is its own, and otherwise closes the stream. It never holds more than three streams,
polls all that it holds, and closes only what it holds. When it ends it holds none, unless it is a
runner that fails. -/
theorem peers_known (serde : Serde) (self : Self) (arguments : List Bytes)
    {log : Log (Call ⊕ Entry.OuterCall) (Sum.elim Call.Answer Entry.OuterCall.Answer)}
    {p : Entry.MainProg Entry.ExitStatus}
    (hrun : Runs (fun _ _ _ => True) (Entry.run serde self arguments) log p) :
    ∃ s, ((meeting self.uid).widen : Monitor (Call ⊕ Entry.OuterCall)
        (Sum.elim Call.Answer Entry.OuterCall.Answer) Peers).after log = some s ∧
      s.streams.card ≤ 3 ∧
      ∀ status, p = .ret status →
        (status = .success ∨ ∀ session, parse arguments ≠ .ok (.hiddenRunner session)) →
        s = Peers.start := by
  obtain ⟨s, hs, hparted⟩ := Monitor.followed_always (Peers.parted_run arguments) hrun
  exact ⟨s, hs, Peers.card_after hs, hparted⟩

/-- A host with a runner of the same user, which closes the connection when it is asked to stop. -/
def stoppedProcess : (op : Call ⊕ Entry.OuterCall) → Sum.elim Call.Answer Entry.OuterCall.Answer op
  | .inl (.file (.lstat ..)) => .ok ⟨.socket, 0, 0o600, 0⟩
  | .inl (.socket (.connect _)) => .ok 5
  | .inl (.socket (.peerUid _)) => .ok 0
  | .inl (.socket (.write _ bytes)) => .ok bytes.length
  | .inl (.socket (.read ..)) => .ok []
  | .inl call => Kernel.quietAnswer call
  | .inr call => programlessAnswer (.inr call)

/-- A session is stopped over a stream whose user is known, and the stream is dropped. -/
theorem peers_known_stop : ∃ log,
    Runs (fun _ _ _ => True)
      (Entry.run jsonSerde ⟨7, 0, some (ascii "/root"), none, 4⟩
        [ascii "stop", exampleContext.session.toText]) log (.ret .success) ∧
    (∃ e ∈ log, e.op = .inl (.socket (.read 5 1))) ∧
    (meeting 0).widen.after log = some Peers.start := by
  have hrun := runs_play (A := fun _ _ _ => True)
    (o := fun (_ : Unit) op => (stoppedProcess op, ())) (n := 40) (s := ())
    (p := Entry.run jsonSerde ⟨7, 0, some (ascii "/root"), none, 4⟩
      [ascii "stop", exampleContext.session.toText]) (by decide +kernel)
  obtain ⟨status, hstatus, hsuccess⟩ := Program.exists_of_returned
    (f := fun status => decide (status = .success))
    (p := (play (fun (_ : Unit) op => (stoppedProcess op, ())) 40 () []
      (Entry.run jsonSerde ⟨7, 0, some (ascii "/root"), none, 4⟩
        [ascii "stop", exampleContext.session.toText])).2) (by decide +kernel)
  rw [hstatus, of_decide_eq_true hsuccess] at hrun
  obtain ⟨s, hs, -, hend⟩ := peers_known _ _ _ hrun
  obtain rfl := hend _ rfl (.inl rfl)
  refine ⟨_, hrun, ?_, hs⟩
  have hread : ((play (fun (_ : Unit) op => (stoppedProcess op, ())) 40 () []
      (Entry.run jsonSerde ⟨7, 0, some (ascii "/root"), none, 4⟩
        [ascii "stop", exampleContext.session.toText])).1.any
          fun e => decide (e.op = .inl (.socket (.read 5 1)))) = true := by decide +kernel
  obtain ⟨e, he, hop⟩ := List.any_eq_true.mp hread
  exact ⟨e, he, of_decide_eq_true hop⟩

end AfkCli
