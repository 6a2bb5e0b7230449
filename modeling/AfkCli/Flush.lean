import AfkCli.Platform

/-!
# Flushing a byte queue

`ByteQueue::flush` against any writer. The queue is a ring, so it is offered as at most two slices,
and where it wraps is up to the allocation; a write takes what it likes of the slice it is offered.

## Main definitions

* `Writer`: where the ring wraps, and what each write answers
* `ByteQueue.flush`: the flush loop
* `QueueRun`, `QueueStep`: any sequence of pushes and flushes

## Main results

* `ByteQueue.flush_conserves`: a flush neither loses nor reorders bytes
* `ByteQueue.flush_returns`: a flush ends when its writer does not interrupt it for ever
* `fifo_exact`: the queue over whole histories
* `flushQueue_run`: the loop of the runner is this flush
-/

namespace AfkCli

open Interaction Relation

/-! ## Writers -/

/-- A write: the slice that was offered, and the answer. -/
abbrev Write := Bytes × Except IoError Nat

/-- The outside of a flush. A write accepts at most what it is offered. -/
structure Writer (σ : Type) where
  /-- the length of the deque's first slice, if the queue is long enough -/
  split : σ → Nat
  write : σ → Bytes → Except IoError Nat × σ
  write_le : ∀ s slice n, (write s slice).1 = .ok n → n ≤ slice.length

/-- The bytes a write took. -/
def Write.taken : Write → Bytes
  | (slice, .ok n) => slice.take n
  | (_, .error _) => []

/-- The bytes the writes took, in order. -/
def taken (writes : List Write) : Bytes := writes.flatMap Write.taken

/-- "AFK queue write returned zero" -/
def writeZero : IoError := IoError.new .writeZero "AFK queue write returned zero"

/-- How a flush ends. -/
structure FlushResult (σ : Type) where
  outside : σ
  queue : ByteQueue
  writes : List Write
  result : Except IoError Unit

/-- A flush that made one more write, first. -/
def FlushResult.after {σ : Type} (write : Write) (f : FlushResult σ) : FlushResult σ :=
  { f with writes := write :: f.writes }

namespace ByteQueue

variable {σ : Type}

/-- `as_slices`, and the slice of the two that is offered. -/
def offered (q : ByteQueue) (split : Nat) : Bytes :=
  let first := q.bytes.take split
  let second := q.bytes.drop split
  if first.isEmpty then second else first

/-- `flush`: the rounds of the loop, and what came of it when they sufficed. -/
def flush (w : Writer σ) : Nat → σ → ByteQueue → Option (FlushResult σ)
  | 0, _, _ => none
  | rounds + 1, s, q =>
    if q.isEmpty then some ⟨s, q, [], .ok ()⟩
    else
      let slice := q.offered (w.split s)
      match w.write s slice with
      | (.ok 0, s') => some ⟨s', q, [(slice, .ok 0)], .error writeZero⟩
      | (.ok n, s') => (flush w rounds s' (q.written n)).map (.after (slice, .ok n))
      | (.error error, s') =>
        if error.kind = .wouldBlock then some ⟨s', q, [(slice, .error error)], .ok ()⟩
        else if error.kind = .interrupted then
          (flush w rounds s' q).map (.after (slice, .error error))
        else some ⟨s', q, [(slice, .error error)], .error error⟩

/-- What is offered comes first, and is something when the queue is. -/
theorem offered_spec (q : ByteQueue) (split : Nat) :
    q.offered split <+: q.bytes ∧ (q.bytes ≠ [] → q.offered split ≠ []) := by
  simp only [offered, List.isEmpty_iff]
  by_cases hfirst : q.bytes.take split = []
  · rw [if_pos hfirst]
    have hwhole : q.bytes.drop split = q.bytes := by
      conv_rhs => rw [← List.take_append_drop split q.bytes, hfirst, List.nil_append]
    rw [hwhole]
    exact ⟨List.prefix_rfl, id⟩
  · rw [if_neg hfirst]
    exact ⟨List.take_prefix _ _, fun _ => hfirst⟩

/-- Accepted bytes leave at the front. -/
theorem take_offered {q : ByteQueue} {split n : Nat} (h : n ≤ (q.offered split).length) :
    (q.offered split).take n ++ q.bytes.drop n = q.bytes := by
  obtain ⟨rest, hrest⟩ := (q.offered_spec split).1
  have hdrop : q.bytes.drop n = (q.offered split).drop n ++ rest := by
    rw [← hrest, List.drop_append_of_le_length h]
  rw [hdrop, ← List.append_assoc, List.take_append_drop, hrest]

/-! ## One flush -/

variable {w : Writer σ} {s : σ} {q : ByteQueue} {rounds : Nat} {f : FlushResult σ}

/-- The turns of the loop: the queue is empty, or a write ends it, or it goes on. -/
theorem flush_succ (h : flush w (rounds + 1) s q = some f) :
    (q.bytes = [] ∧ f = ⟨s, q, [], .ok ()⟩) ∨
      (q.bytes ≠ [] ∧ ∃ answer s', w.write s (q.offered (w.split s)) = (answer, s') ∧
        ((∃ result, f = ⟨s', q, [(q.offered (w.split s), answer)], result⟩ ∧
            Write.taken (q.offered (w.split s), answer) = [] ∧
            (result = .ok () → ∃ error, answer = .error error ∧ error.kind = .wouldBlock)) ∨
          (∃ n f', answer = .ok n ∧ 0 < n ∧ flush w rounds s' (q.written n) = some f' ∧
            f = f'.after (q.offered (w.split s), answer)) ∨
          ∃ error f', answer = .error error ∧ error.kind = .interrupted ∧
            flush w rounds s' q = some f' ∧ f = f'.after (q.offered (w.split s), answer))) := by
  unfold flush at h
  simp only [isEmpty, List.isEmpty_iff] at h
  split at h
  · rename_i hempty
    exact .inl ⟨hempty, (Option.some.inj h).symm⟩
  · rename_i hne
    refine .inr ⟨hne, ?_⟩
    split at h
    · rename_i s' hwrite
      refine ⟨_, s', hwrite, .inl ⟨_, (Option.some.inj h).symm, by simp [Write.taken], ?_⟩⟩
      rintro ⟨⟩
    · rename_i n s' hn hwrite
      obtain ⟨f', hf', rfl⟩ := Option.map_eq_some_iff.mp h
      exact ⟨_, s', hwrite, .inr (.inl ⟨n, f', rfl, Nat.pos_of_ne_zero hn, hf', rfl⟩)⟩
    · rename_i error s' hwrite
      refine ⟨_, s', hwrite, ?_⟩
      split at h
      · rename_i hkind
        exact .inl ⟨_, (Option.some.inj h).symm, rfl, fun _ => ⟨error, rfl, hkind⟩⟩
      · split at h
        · rename_i hkind
          obtain ⟨f', hf', rfl⟩ := Option.map_eq_some_iff.mp h
          exact .inr (.inr ⟨error, f', rfl, hkind, hf', rfl⟩)
        · refine .inl ⟨_, (Option.some.inj h).symm, rfl, ?_⟩
          rintro ⟨⟩

/-- **A flush neither loses nor reorders bytes**, whatever ends it. -/
theorem flush_conserves (h : flush w rounds s q = some f) :
    taken f.writes ++ f.queue.bytes = q.bytes ∧ f.queue.limit = q.limit := by
  induction rounds generalizing s q f with
  | zero => cases h
  | succ rounds ih =>
    obtain ⟨-, rfl⟩ | ⟨-, answer, s', hwrite, hturn⟩ := flush_succ h
    · exact ⟨rfl, rfl⟩
    · obtain ⟨result, rfl, hnothing, -⟩ | ⟨n, f', rfl, -, hf', rfl⟩ | ⟨error, f', rfl, -, hf', rfl⟩ :=
        hturn
      · exact ⟨by simp [taken, hnothing], rfl⟩
      · -- The write accepted `n` bytes, and the rest of the loop starts without them.
        have hle : n ≤ (q.offered (w.split s)).length := by
          apply w.write_le s
          rw [hwrite]
        obtain ⟨hbytes, hlimit⟩ := ih hf'
        refine ⟨?_, hlimit⟩
        show ((q.offered (w.split s)).take n ++ taken f'.writes) ++ f'.queue.bytes = _
        rw [List.append_assoc, hbytes, bytes_written]
        exact take_offered hle
      · obtain ⟨hbytes, hlimit⟩ := ih hf'
        exact ⟨hbytes, hlimit⟩

/-- A flush returns `Ok` with an empty queue, or right after a write that would block. -/
theorem flush_ok (h : flush w rounds s q = some f) (hok : f.result = .ok ()) :
    f.queue.bytes = [] ∨ ∃ slice error, f.writes.getLast? = some (slice, .error error) ∧
      error.kind = .wouldBlock := by
  induction rounds generalizing s q f with
  | zero => cases h
  | succ rounds ih =>
    obtain ⟨hempty, rfl⟩ | ⟨-, answer, s', hwrite, hturn⟩ := flush_succ h
    · exact .inl hempty
    · have hlater : ∀ {f' : FlushResult σ} {q' : ByteQueue},
          flush w rounds s' q' = some f' → f = f'.after (q.offered (w.split s), answer) →
            f.queue.bytes = [] ∨ ∃ slice error,
              f.writes.getLast? = some (slice, .error error) ∧ error.kind = .wouldBlock := by
        rintro f' q' hf' rfl
        obtain hempty | ⟨slice, error, hlast, hkind⟩ := ih hf' hok
        · exact .inl hempty
        · refine .inr ⟨slice, error, ?_, hkind⟩
          show ((q.offered (w.split s), answer) :: f'.writes).getLast? = _
          rw [List.getLast?_cons, hlast]
          rfl
      obtain ⟨result, rfl, -, hblock⟩ | ⟨n, f', -, -, hf', hf⟩ | ⟨error, f', -, -, hf', hf⟩ := hturn
      · obtain ⟨error, rfl, hkind⟩ := hblock hok
        exact .inr ⟨_, error, rfl, hkind⟩
      · exact hlater hf' hf
      · exact hlater hf' hf

/-! ## Flushes that end -/

/-- The next writes of the queue are all interrupted. -/
def Interrupted (w : Writer σ) (q : ByteQueue) : Nat → σ → Prop
  | 0, _ => True
  | n + 1, s => ∃ error s', w.write s (q.offered (w.split s)) = (.error error, s') ∧
      error.kind = .interrupted ∧ Interrupted w q n s'

/-- A writer that interrupts only finitely often in a row. -/
def Patient (w : Writer σ) : Prop := ∀ q s, ∃ n, ¬ Interrupted w q n s

/-- **A flush ends**, when its writer does not interrupt it for ever. -/
theorem flush_returns (hw : Patient w) (s : σ) (q : ByteQueue) :
    ∃ rounds f, flush w rounds s q = some f := by
  -- Outside, the queue gets shorter; inside, the interruptions run out.
  induction hlen : q.bytes.length using Nat.strong_induction_on generalizing s q with
  | _ length ih =>
    obtain ⟨n, hn⟩ := hw q s
    induction n generalizing s with
    | zero => exact absurd trivial hn
    | succ n ihn =>
      by_cases hempty : q.bytes = []
      · exact ⟨1, ⟨s, q, [], .ok ()⟩, by simp [flush, isEmpty, hempty]⟩
      have hne : q.isEmpty = false := by simpa [isEmpty] using hempty
      rcases hwrite : w.write s (q.offered (w.split s)) with ⟨_ | n', s'⟩
      · rename_i error
        by_cases hblock : error.kind = .wouldBlock
        · exact ⟨1, _, by simp only [flush, hne, hwrite, hblock]; rfl⟩
        by_cases hinterrupted : error.kind = .interrupted
        · have hrest : ¬ Interrupted w q n s' := by
            intro hrest
            exact hn ⟨error, s', hwrite, hinterrupted, hrest⟩
          obtain ⟨rounds, f, hf⟩ := ihn s' hrest
          exact ⟨rounds + 1, _, by simp [flush, hne, hwrite, hinterrupted, hf]; rfl⟩
        · exact ⟨1, _, by simp only [flush, hne, hwrite, hblock, hinterrupted]; rfl⟩
      · rcases Nat.eq_zero_or_pos n' with rfl | hpos
        · exact ⟨1, _, by simp only [flush, hne, hwrite]; rfl⟩
        · have hshorter : (q.written n').bytes.length < length := by
            have := List.length_pos_iff.mpr hempty
            rw [bytes_written, List.length_drop]
            omega
          obtain ⟨rounds, f, hf⟩ := ih _ hshorter s' (q.written n') rfl
          obtain ⟨m, rfl⟩ : ∃ m, n' = m + 1 := ⟨n' - 1, by omega⟩
          exact ⟨rounds + 1, _, by simp only [flush, hne, hwrite, hf]; rfl⟩

end ByteQueue

/-! ## Histories -/

/-- A queue, the bytes its writers accepted, and the bytes of the pushes that returned true. -/
structure QueueRun where
  queue : ByteQueue
  accepted : Bytes
  pushed : Bytes

/-- A push, or a flush that ended, against any writer. -/
inductive QueueStep : QueueRun → QueueRun → Prop
  | push {r : QueueRun} (bytes : Bytes) :
      QueueStep r ⟨(r.queue.push bytes).1, r.accepted,
        if (r.queue.push bytes).2 then r.pushed ++ bytes else r.pushed⟩
  | flush {r : QueueRun} {σ : Type} {w : Writer σ} {s : σ} {rounds : Nat} {f : FlushResult σ}
      (hflush : r.queue.flush w rounds s = some f) :
      QueueStep r ⟨f.queue, r.accepted ++ taken f.writes, r.pushed⟩

/-- A new queue. -/
def QueueRun.start (limit : Nat) : QueueRun := ⟨.new limit, [], []⟩

/-- What was accepted and what is queued are what was pushed. -/
structure QueueRun.Conserves (r : QueueRun) (limit : Nat) : Prop where
  bytes : r.accepted ++ r.queue.bytes = r.pushed
  limit_eq : r.queue.limit = limit

theorem QueueRun.Conserves.step {r r' : QueueRun} {limit : Nat} (h : r.Conserves limit)
    (hstep : QueueStep r r') : r'.Conserves limit := by
  cases hstep with
  | push bytes =>
    refine ⟨?_, (ByteQueue.push_limit r.queue bytes).trans h.limit_eq⟩
    cases hpush : r.queue.push bytes with
    | mk queue pushed =>
      cases pushed with
      | true =>
        have hbytes : queue.bytes = r.queue.bytes ++ bytes := by
          simpa only [hpush] using ByteQueue.push_true (congrArg Prod.snd hpush)
        rw [if_pos rfl, hbytes, ← List.append_assoc, h.bytes]
      | false =>
        obtain rfl := ByteQueue.push_false hpush
        exact h.bytes
  | flush hflush =>
    obtain ⟨hbytes, hlimit⟩ := ByteQueue.flush_conserves hflush
    refine ⟨?_, hlimit.trans h.limit_eq⟩
    simp only [List.append_assoc, hbytes, h.bytes]

theorem QueueRun.conserves {r : QueueRun} {limit : Nat}
    (h : ReflTransGen QueueStep (.start limit) r) : r.Conserves limit := by
  induction h with
  | refl => exact ⟨rfl, rfl⟩
  | tail _ hstep ih => exact ih.step hstep

/-- **The queue is a bounded lossless FIFO**: after any pushes and flushes, against any writers. -/
theorem fifo_exact (limit : Nat) (r : QueueRun) (h : ReflTransGen QueueStep (.start limit) r) :
    r.accepted ++ r.queue.bytes = r.pushed ∧
      r.queue.bytes.length ≤ limit ∧
      (∀ bytes, (r.queue.push bytes).2 = false → (r.queue.push bytes).1 = r.queue) ∧
      (∀ bytes, r.queue.bytes.length + bytes.length ≤ limit → (r.queue.push bytes).2 = true) ∧
      (∀ (σ : Type) (w : Writer σ) (s : σ) (rounds : Nat) (f : FlushResult σ),
        r.queue.flush w rounds s = some f → f.result = .ok () →
          f.queue.bytes = [] ∨ ∃ slice error, f.writes.getLast? = some (slice, .error error) ∧
            error.kind = .wouldBlock) ∧
      ∀ (σ : Type) (w : Writer σ) (s : σ), ByteQueue.Patient w →
        ∃ rounds f, r.queue.flush w rounds s = some f := by
  have hconserves := QueueRun.conserves h
  refine ⟨hconserves.bytes, ?_, ?_, ?_, ?_, ?_⟩
  · have := r.queue.length_le
    rwa [hconserves.limit_eq] at this
  · intro bytes hrefused
    exact ByteQueue.push_false (Prod.ext rfl hrefused)
  · intro bytes hfits
    rw [← hconserves.limit_eq] at hfits
    exact (ByteQueue.push_fits hfits).1
  · intro σ w s rounds f hflush hok
    exact ByteQueue.flush_ok hflush hok
  · intro σ w s hw
    exact ByteQueue.flush_returns hw s r.queue

/-- A writer that takes at most two bytes at a time and then blocks, on a deque that wraps after its
first byte. -/
def exampleWriter : Writer Nat where
  split _ := 1
  write s slice :=
    if s = 0 then (.error (IoError.os .wouldBlock 11), 0) else (.ok (min 2 slice.length), s - 1)
  write_le s slice n h := by
    split at h
    · cases h
    · obtain rfl := Except.ok.inj h
      exact Nat.min_le_right 2 slice.length

/-- One byte is accepted, and two wait. -/
theorem fifo_exact_partial :
    ∃ r, ReflTransGen QueueStep (.start 4) r ∧ r.accepted = [1] ∧ r.queue.bytes = [2, 3] ∧
      r.accepted ++ r.queue.bytes = r.pushed := by
  have hpush : QueueStep (.start 4) ⟨((ByteQueue.new 4).push [1, 2, 3]).1, [], [1, 2, 3]⟩ :=
    .push [1, 2, 3]
  obtain ⟨f, hf, haccepted, hqueue⟩ : ∃ f : FlushResult Nat,
      ((ByteQueue.new 4).push [1, 2, 3]).1.flush exampleWriter 2 1 = some f ∧
        taken f.writes = [1] ∧ f.queue.bytes = [2, 3] := ⟨_, rfl, rfl, rfl⟩
  have hreached := ReflTransGen.single hpush |>.tail (.flush hf)
  exact ⟨_, hreached, haccepted, hqueue, (fifo_exact 4 _ hreached).1⟩

/-! ## The runner's loop -/

/-- The loop of the runner, against an outside that answers its writes as a writer does, is this
flush. -/
theorem flushQueue_run {σ : Type} {outside : σ → (op : Call) → op.Answer × σ}
    {write : Bytes → Io Nat} {w : Writer σ} (hsplit : ∀ s, w.split s = 0)
    (hwrite : ∀ s bytes, (write bytes).run.run outside s = some (w.write s bytes)) (rounds : Nat)
    (s : σ) (q : ByteQueue) :
    (flushQueue write rounds q).run outside s =
      (q.flush w rounds s).map fun f => ((f.queue, f.result), f.outside) := by
  -- With nothing in the first slice, the second one is the whole queue.
  have hoffered : ∀ (s : σ) (q : ByteQueue), q.offered (w.split s) = q.bytes := by
    intro s q
    simp [ByteQueue.offered, hsplit]
  induction rounds generalizing s q with
  | zero => rfl
  | succ rounds ih =>
    unfold flushQueue ByteQueue.flush
    by_cases hempty : q.isEmpty
    · rw [if_pos hempty, if_pos hempty]
      rfl
    · rw [if_neg hempty, if_neg hempty, Program.bind_eq, Program.run_bind, hwrite, hoffered]
      rcases hanswer : w.write s q.bytes with ⟨_ | n, s'⟩
      · rename_i error
        simp only [hanswer, Option.bind_some]
        split_ifs with hblock hinterrupted
        · rfl
        · rw [ih, Option.map_map]
          rfl
        · rfl
      · cases n with
        | zero =>
          simp only [hanswer, Option.bind_some]
          rfl
        | succ n =>
          simp only [hanswer, Option.bind_some, ih, Option.map_map]
          rfl

end AfkCli
