import AfkCli.Footprint
import AfkCli.Json
import AfkCli.Records
import AfkCli.Runner
import AfkCli.Surface

/-!
# The recorded attachment

The live record says whether the session has an active attachment. The event loop rewrites it where
the attachment comes and goes, and between two turns it is right.

## Main definitions

* `Spares`: the calls that leave an inode and all entries alone
* `Drops`, `Stays`: what a step does to the attachment
* `Marks`: the record of a session, and its trace in another file
* `RunnerContext.turns`: some turns of the event loop

## Main results

* `wp_tick`: a turn that does not leave the loop keeps the record right
* `attached_recorded`: the record is right after every turn
-/

namespace AfkCli

open Interaction Discipline Function

namespace Presence

/-! ## What leaves the record alone -/

/-- The calls that leave the inode `n` and all entries alone. -/
def Spares (n : Nat) : Call → Prop
  | .file (.writeAll _ fd _) => fd ≠ n
  | .file (.createNew ..) | .file (.removeFile ..) | .file (.rename ..)
  | .file (.setPermissions ..) => False
  | .socket (.bind _) | .socket (.listen _) | .socket (.closeListener _) => False
  | .process (.sendResponse _) | .process .setPtyNonblocking => False
  | _ => True

/-- The entries and the inode `n` are as they were. -/
structure Spared (n : Nat) (s s' : Kernel) : Prop where
  dir : s'.dir = s.dir
  inode : s'.inode n = s.inode n
  fresh_le : s.fresh ≤ s'.fresh

theorem Spared.refl (n : Nat) (s : Kernel) : Spared n s s := ⟨rfl, rfl, Nat.le_refl _⟩

theorem Spared.trans {n : Nat} {s s' s'' : Kernel} (h : Spared n s s') (h' : Spared n s' s'') :
    Spared n s s'' :=
  ⟨h'.dir.trans h.dir, h'.inode.trans h.inode, Nat.le_trans h.fresh_le h'.fresh_le⟩

theorem Spared.next {n : Nat} {i : Proc} {s : Kernel} {op : Call} (r : op.Answer)
    (h : Spares n op) : Spared n s (s.next i op r) := by
  have heffect := Kernel.next_effect i s op r
  generalize s.next i op r = s' at heffect ⊢
  cases heffect with
  | quiet hsame => exact ⟨hsame.dir, congrFun hsame.inode n, hsame.fresh_le⟩
  | mask => exact ⟨rfl, rfl, Nat.le_refl _⟩
  | write => exact ⟨rfl, update_of_ne (Ne.symm h) _ _, Nat.le_refl _⟩
  | createFile | bind | unlink | rename | chmod | listen | close => exact h.elim

/-- No call on processes changes an entry or a file. -/
theorem Spared.process {n : Nat} {i : Proc} {s : Kernel} (call : ProcessCall) (r : call.Answer) :
    Spared n s (s.next i (.process call) r) := by
  have heffect := Kernel.next_effect i s (.process call) r
  generalize s.next i (.process call) r = s' at heffect ⊢
  cases heffect with
  | quiet hsame => exact ⟨hsame.dir, congrFun hsame.inode n, hsame.fresh_le⟩
  | mask => exact ⟨rfl, rfl, Nat.le_refl _⟩

section rules

variable {i : Proc} {s₀ : Kernel} {F : Faults} {log : RunnerLog} {n : Nat}

/-- A program that makes only such calls leaves the record alone. -/
theorem wp_spares {α : Type} {q : α → Prop} {p : Prog α}
    (hp : p.Within (fun _ _ => True) (Spares n) q) :
    (solo i s₀ F fun _ => True).wp () p
      (fun a log' => q a ∧ Spared n (after i s₀ log) (after i s₀ log')) log := by
  induction p generalizing log with
  | ret a => exact ⟨hp, .refl _ _⟩
  | spin => exact trivial
  | call op k ih =>
    show (solo i s₀ F fun _ => True).wp () ((Program.perform op).bind k) _ _
    refine wp_bind.mpr (wp_recorded fun r _ => ⟨trivial, ?_⟩)
    refine wp_mono (fun _ log' h => ⟨h.1, ?_⟩) (ih r (hp.2 r trivial))
    exact (Spared.next (s := after i s₀ log) r hp.1).trans h.2

end rules

/-! ## The functions of the loop -/

/-- The trace does not write to the inode `n`. -/
def Apart (n : Nat) (trace : Option Trace) : Prop := ∀ t ∈ trace, t.file ≠ n

theorem Apart.of_same {n : Nat} {trace trace' : Option Trace} (h : Apart n trace)
    (hsame : SameFile trace trace') : Apart n trace' := by
  intro t' ht'
  have hfile : (trace.map Trace.file) = some t'.file := by
    rw [← hsame, ht']
    rfl
  obtain ⟨t, ht, hfile⟩ := Option.map_eq_some_iff.mp hfile
  rw [← hfile]
  exact h t ht

/-- The attachment may have been dropped. -/
structure Drops (st st' : LoopState) : Prop where
  trace : SameFile st.trace st'.trace
  active : st'.active.isSome = true → st.active.isSome = true

/-- There is an attachment if there was one. -/
structure Stays (st st' : LoopState) : Prop where
  trace : SameFile st.trace st'.trace
  active : st'.active.isSome = st.active.isSome

theorem Drops.refl (st : LoopState) : Drops st st := ⟨rfl, id⟩

theorem Stays.refl (st : LoopState) : Stays st st := ⟨rfl, rfl⟩

theorem Stays.drops {st st' : LoopState} (h : Stays st st') : Drops st st' :=
  ⟨h.trace, fun hactive => h.active ▸ hactive⟩

theorem Drops.trans {st st' st'' : LoopState} (h : Drops st st') (h' : Drops st' st'') :
    Drops st st'' :=
  ⟨h'.trace.trans h.trace, fun hactive => h.active (h'.active hactive)⟩

theorem Stays.trans {st st' st'' : LoopState} (h : Stays st st') (h' : Stays st' st'') :
    Stays st st'' :=
  ⟨h'.trace.trans h.trace, h'.active.trans h.active⟩

section loop

variable {n : Nat} {self : Self} {ctx : RunnerContext} {st : LoopState}

theorem Apart.takes {trace : Option Trace} (h : Apart n trace) : TakesTrace (Spares n) trace :=
  ⟨trivial, fun t ht _ => h t ht⟩

theorem spares_event (h : Apart n st.trace) (event : String) :
    (ctx.event st event).Within (fun _ _ => True) (Spares n) (Stays st) :=
  Program.Within.bind (within_traceEvent h.takes event) fun _ htrace => ⟨htrace, rfl⟩

theorem spares_ioErrorEvent (h : Apart n st.trace) (event : String) (error : IoError) :
    (ctx.ioErrorEvent st event error).Within (fun _ _ => True) (Spares n) (Stays st) :=
  Program.Within.bind (within_traceIoError h.takes event error) fun _ htrace => ⟨htrace, rfl⟩

theorem spares_closeConnection (connection : Option Connection) :
    Calls (Spares n) (closeConnection connection) := by
  cases connection with
  | none => trivial
  | some connection => exact ⟨trivial, fun _ _ => trivial⟩

theorem spares_dropActive :
    (dropActive st).Within (fun _ _ => True) (Spares n) (Drops st) :=
  Program.Within.bind (spares_closeConnection st.active) fun _ _ => ⟨rfl, nofun⟩

theorem spares_dropCandidate :
    (dropCandidate st).Within (fun _ _ => True) (Spares n) (Stays st) :=
  Program.Within.bind (spares_closeConnection st.candidate) fun _ _ => ⟨rfl, rfl⟩

theorem yields_event (h : Apart n st.trace) (event : String) :
    Yields (Spares n) (Stays st) (liftM (ctx.event st event) : Io LoopState) :=
  .lift (spares_event h event)

theorem yields_drainPty (h : Apart n st.trace) (rounds processed : Nat) :
    Yields (Spares n) (Drops st) (ctx.drainPty rounds processed st) := by
  have hafter : ∀ {p : Prog LoopState} {st' : LoopState}, Drops st st' →
      p.Within (fun _ _ => True) (Spares n) (Drops st') →
        p.Within (fun _ _ => True) (Spares n) (Drops st) :=
    fun hst hp => hp.mono (fun _ _ => id) (fun _ => id) fun _ => hst.trans
  have hstays : ∀ {p : Prog LoopState} {st' : LoopState}, Drops st st' →
      p.Within (fun _ _ => True) (Spares n) (Stays st') →
        p.Within (fun _ _ => True) (Spares n) (Drops st) :=
    fun hst hp => hp.mono (fun _ _ => id) (fun _ => id) fun _ h => hst.trans h.drops
  refine Surface.yields_drain (fun _ => trivial) (fun _ _ hst => ⟨hst.trace, hst.active⟩) ?_
    (fun _ hst => hafter hst spares_dropActive) (fun _ hst => ?_) (fun _ error event _ hst => ?_)
    rounds processed (.refl st)
  · exact fun _ _ _ hst hactive => ⟨hst.trace, fun _ => hst.active (by rw [hactive]; rfl)⟩
  · exact hstays hst (spares_event (h.of_same hst.trace) _)
  · exact hstays hst (spares_ioErrorEvent (h.of_same hst.trace) event error)

theorem yields_eventIf (h : Apart n st.trace) (p : Prop) [Decidable p] (event : String) :
    Yields (Spares n) (Stays st) (if p then liftM (ctx.event st event) else pure st : Io LoopState) := by
  split_ifs
  · exact yields_event h event
  · exact .pure (.refl st)

/-- A stream is closed, and the loop is left. -/
theorem yields_closeThrow {Q : LoopState → Prop} {stream : Fd} {error : IoError} :
    Yields (Spares n) Q (do
      socket (.close stream)
      throw error) :=
  .lift_bind (P := fun _ => True) (Calls.perform trivial) fun _ _ => .throw _

theorem yields_acceptCandidate (h : Apart n st.trace) (rounds : Nat) :
    Yields (Spares n) (Stays st) (ctx.acceptCandidate rounds st) := by
  induction rounds generalizing st with
  | zero => exact trivial
  | succ rounds ih =>
    unfold RunnerContext.acceptCandidate
    refine .attempt_bind (P := fun _ => True) (.of_only (.ask (.perform trivial)) fun _ => trivial)
      (fun stream _ => ?_) fun error => ?_
    · refine .attempt_bind (P := fun _ => True) (.of_only (.ask (.perform trivial)) fun _ => trivial)
        (fun uid _ => ?_) fun error => yields_closeThrow
      dsimp only
      by_cases huid : uid ≠ ctx.self.uid
      · rw [if_pos huid]
        refine .lift_bind (spares_event h _) fun st₁ hst₁ => ?_
        refine .lift_bind (P := fun _ => True) (Calls.perform trivial) fun _ _ => ?_
        exact (ih (h.of_same hst₁.trace)).mono fun _ => hst₁.trans
      · rw [if_neg huid]
        refine .attempt_bind (P := fun _ => True)
          (.of_only (.ask (.perform trivial)) fun _ => trivial) (fun _ _ => ?_)
          fun error => yields_closeThrow
        refine .bind (yields_eventIf h _ _) fun st₁ hst₁ => ?_
        refine .lift_bind (spares_event (h.of_same hst₁.trace) _) fun st₂ hst₂ => ?_
        refine .lift_bind (spares_closeConnection _) fun _ _ => ?_
        have hst := hst₁.trans hst₂
        have hnext : Apart n { st₂ with candidate := some (Connection.new stream) }.trace :=
          h.of_same hst.trace
        refine (ih hnext).mono fun st₃ hst₃ => ?_
        exact ⟨hst₃.trace.trans hst.trace, hst₃.active.trans hst.active⟩
    · dsimp only
      split_ifs
      · exact .pure (.refl st)
      · exact .throw _

theorem yields_readActive (h : Apart n st.trace) (connection : Connection)
    (hactive : st.active.isSome = true) :
    Yields (Spares n) (Drops st) (ctx.readActive connection st) := by
  unfold RunnerContext.readActive
  refine .attempt_bind (.of_only (Surface.yields_readRecords fun _ => trivial).only fun _ => trivial) (P := fun _ => True)
    (fun read _ => ?_) fun error => ?_
  · refine .bind (.of_only (Surface.only_applyActiveRecords (fun _ _ => trivial) (fun _ => trivial) _ _)
      fun _ => trivial) (P := fun _ => True)
      fun applied _ => ?_
    dsimp only
    split_ifs
    · exact .pure ⟨rfl, fun _ => hactive⟩
    · have hst : Apart n { st with ptyInput := applied.2, active := some read.2 }.trace := h
      refine .lift_bind (spares_event hst _) fun st₁ hst₁ => ?_
      refine Yields.mono (.lift spares_dropActive) fun st₂ hst₂ => ?_
      exact ⟨hst₂.trace.trans hst₁.trace, fun _ => hactive⟩
  · refine .lift_bind (spares_ioErrorEvent h _ _) fun st₁ hst₁ => ?_
    exact Yields.mono (.lift spares_dropActive) fun _ => hst₁.drops.trans

theorem spares_flushPtyInput (h : Apart n st.trace) :
    (ctx.flushPtyInput st).Within (fun _ _ => True) (Spares n) (Drops st) := by
  have hflush : Calls (Spares n) (flushQueue writePty ctx.self.rounds st.ptyInput) :=
    Surface.calls_flushQueue (fun _ => .ask (.perform trivial)) _ _
  refine Program.Within.bind hflush fun flushed _ => ?_
  rcases flushed with ⟨ptyInput, error | _⟩
  · have hst : Apart n { st with ptyInput }.trace := h
    refine Program.Within.bind (spares_ioErrorEvent hst _ error) fun st₁ hst₁ => ?_
    exact spares_dropActive.mono (fun _ _ => id) (fun _ => id) fun _ =>
      Drops.trans ⟨hst₁.trace, fun hsome => hst₁.active ▸ hsome⟩
  · exact ⟨rfl, id⟩

theorem spares_flushActive (h : Apart n st.trace) (connection : Connection)
    (hactive : st.active.isSome = true) :
    (ctx.flushActive connection st).Within (fun _ _ => True) (Spares n) (Drops st) := by
  have hflush : Calls (Spares n)
      (flushQueue (writeStream connection.stream) ctx.self.rounds connection.output) :=
    Surface.calls_flushQueue (fun _ => .ask (.perform trivial)) _ _
  refine Program.Within.bind hflush fun flushed _ => ?_
  rcases flushed with ⟨output, error | _⟩
  · refine Program.Within.bind (spares_ioErrorEvent h _ error) fun st₁ hst₁ => ?_
    exact spares_dropActive.mono (fun _ _ => id) (fun _ => id) fun _ => hst₁.drops.trans
  · exact ⟨rfl, fun _ => hactive⟩

theorem yields_writeIfReady (h : Apart n st.trace) (event : PollFlags) :
    Yields (Spares n) (Drops st) (ctx.writeIfReady event st) := by
  unfold RunnerContext.writeIfReady
  split
  · rename_i connection hactive
    split_ifs
    · exact .lift (spares_flushActive h connection (by rw [hactive]; rfl))
    · exact .pure (.refl st)
  · exact .pure (.refl st)

theorem yields_readIfReady (h : Apart n st.trace) (event : PollFlags) :
    Yields (Spares n) (Drops st) (ctx.readIfReady event st) := by
  unfold RunnerContext.readIfReady
  split
  · rename_i connection hactive
    split_ifs
    · exact yields_readActive h connection (by rw [hactive]; rfl)
    · exact .pure (.refl st)
  · exact .pure (.refl st)

end loop

/-! ## The record -/

/-- The live record is in the inode `n`, it says `attached`, and the trace is another file. -/
structure Marks (ctx : RunnerContext) (attached : Bool) (trace : Option Trace) (n : Nat)
    (s : Kernel) : Prop where
  entry : s.dir ctx.files.paths.metadata = some n
  record : ctx.registry.serde.fromSlice (s.inode n).bytes = some (ctx.liveMetadata attached)
  fresh_lt : n < s.fresh
  apart : Apart n trace
  below : ∀ t ∈ trace, t.file < s.fresh

/-- The live record says whether there is an attachment. -/
def Right (ctx : RunnerContext) (st : LoopState) (s : Kernel) : Prop :=
  ∃ n, Marks ctx st.active.isSome st.trace n s

theorem Marks.spared {ctx : RunnerContext} {attached : Bool} {trace trace' : Option Trace} {n : Nat}
    {s s' : Kernel} (h : Marks ctx attached trace n s) (hspared : Spared n s s')
    (hsame : SameFile trace trace') : Marks ctx attached trace' n s' where
  entry := by rw [hspared.dir, h.entry]
  record := by rw [hspared.inode, h.record]
  fresh_lt := Nat.lt_of_lt_of_le h.fresh_lt hspared.fresh_le
  apart := h.apart.of_same hsame
  below t' ht' := by
    have hfile : trace.map Trace.file = some t'.file := by
      rw [← hsame, ht']
      rfl
    obtain ⟨t, ht, hfile⟩ := Option.map_eq_some_iff.mp hfile
    rw [← hfile]
    exact Nat.lt_of_lt_of_le (h.below t ht) hspared.fresh_le

section turns

variable {i : Proc} {s₀ : Kernel} {F : Faults} {log : RunnerLog} {n : Nat}
  {ctx : RunnerContext} {st : LoopState} {attached : Bool} {trace : Option Trace}

/-- `?` after a program that leaves the record alone. -/
theorem wp_yields {α β : Type} {q : α → Prop} {p : Io α} {f : α → Io β}
    {Q : β → RunnerLog → Prop} (hp : Yields (Spares n) q p)
    (hf : ∀ a log', q a → Spared n (after i s₀ log) (after i s₀ log') →
      (solo i s₀ F fun _ => True).wp () (f a).run (fun r log'' => ∀ b, r = .ok b → Q b log'') log') :
    (solo i s₀ F fun _ => True).wp () (p >>= f).run (fun r log' => ∀ b, r = .ok b → Q b log') log :=
  wp_seq _ (wp_spares hp) (fun a log' h => hf a log' (h.1 a rfl) h.2)
    (by rintro error log' - b ⟨⟩)

theorem wp_only {α β : Type} {p : Io α} {f : α → Io β} {Q : β → RunnerLog → Prop}
    (hp : Only (Spares n) p)
    (hf : ∀ a log', Spared n (after i s₀ log) (after i s₀ log') →
      (solo i s₀ F fun _ => True).wp () (f a).run (fun r log'' => ∀ b, r = .ok b → Q b log'') log') :
    (solo i s₀ F fun _ => True).wp () (p >>= f).run (fun r log' => ∀ b, r = .ok b → Q b log') log :=
  wp_yields (q := fun _ => True) (.of_only hp fun _ => trivial) fun a log' _ => hf a log'

/-- Writing the live record. -/
theorem wp_writeLive
    (hbelow : ∀ t ∈ trace, t.file < (after i s₀ log).fresh) :
    (solo i s₀ F fun _ => True).wp () (ctx.writeLive attached).run
      (fun r log' => ∀ a, r = .ok a → ∃ n, Marks ctx attached trace n (after i s₀ log')) log := by
  unfold RunnerContext.writeLive Registry.writeMetadata
  dsimp only
  split_ifs
  · exact wp_ret.mpr (by rintro _ ⟨⟩)
  · refine wp_mono (fun r log' h a hr => ?_) (Alone.wp_atomicWrite unobserved_true)
    obtain ⟨hdir, hnode, hlt⟩ := h.written hr
    refine ⟨(after i s₀ log).fresh, ?_, ?_, hlt, ?_, ?_⟩
    · rw [hdir, update_self]
    · rw [hnode]
      exact ctx.registry.serde.fromSlice_toVec _
    · exact fun t ht => Nat.ne_of_lt (hbelow t ht)
    · exact fun t ht => Nat.lt_trans (hbelow t ht) hlt

theorem wp_outputQueueFull (hmarks : Marks ctx attached st.trace n
      (after i s₀ log)) (hactive : st.active.isSome = false) :
    (solo i s₀ F fun _ => True).wp () (ctx.outputQueueFull st).run
      (fun r log' => ∀ st', r = .ok st' → Right ctx st' (after i s₀ log')) log := by
  refine wp_yields (yields_event hmarks.apart _) fun st₁ log₁ hst₁ hspared => ?_
  have hmarks₁ := hmarks.spared hspared hst₁.trace
  refine wp_seq _ (wp_writeLive hmarks₁.below) (fun _ log₂ h => ?_)
    (by rintro error log' - _ ⟨⟩)
  obtain ⟨m, hm⟩ := h () rfl
  refine wp_ret.mpr ?_
  rintro _ ⟨⟩
  refine ⟨m, ?_⟩
  rw [hst₁.active, hactive]
  exact hm

/-- The polled attachment: where it is dropped, the record is rewritten. -/
theorem wp_handleActive {event : PollFlags}
    (hmarks : Marks ctx attached st.trace n (after i s₀ log))
    (hattached : st.active.isSome = true → attached = true) :
    (solo i s₀ F fun _ => True).wp () (ctx.handleActive event st).run
      (fun r log' => ∀ st', r = .ok st' → Right ctx st' (after i s₀ log')) log := by
  refine wp_yields (yields_eventIf hmarks.apart _ _) fun st₁ log₁ hst₁ hspared₁ => ?_
  have hmarks₁ := hmarks.spared hspared₁ hst₁.trace
  refine wp_yields (yields_eventIf hmarks₁.apart _ _) fun st₂ log₂ hst₂ hspared₂ => ?_
  have hmarks₂ := hmarks₁.spared hspared₂ hst₂.trace
  refine wp_yields (yields_writeIfReady hmarks₂.apart _) fun st₃ log₃ hst₃ hspared₃ => ?_
  have hmarks₃ := hmarks₂.spared hspared₃ hst₃.trace
  refine wp_yields (yields_readIfReady hmarks₃.apart _) fun st₄ log₄ hst₄ hspared₄ => ?_
  have hmarks₄ := hmarks₃.spared hspared₄ hst₄.trace
  have hdrops : Drops st st₄ := ((hst₁.trans hst₂).drops.trans hst₃).trans hst₄
  cases hactive : st₄.active with
  | none =>
    refine wp_seq _ (wp_writeLive hmarks₄.below) (fun _ log₅ h => wp_ret.mpr ?_)
      (by rintro error log' - _ ⟨⟩)
    rintro _ ⟨⟩
    obtain ⟨m, hm⟩ := h () rfl
    refine ⟨m, ?_⟩
    rw [hactive]
    exact hm
  | some connection =>
    -- It is still there, so it was there, and the record said so.
    refine wp_ret.mpr ?_
    rintro _ ⟨⟩
    have hattached' := hattached (hdrops.active (by rw [hactive]; rfl))
    refine ⟨n, ?_⟩
    rw [hactive]
    rw [hattached'] at hmarks₄
    exact hmarks₄

theorem wp_activate {connection : Connection} {rows columns : UInt16}
    {remaining : List Record} (hright : Right ctx st (after i s₀ log)) :
    (solo i s₀ F fun _ => True).wp () (ctx.activate connection rows columns remaining st).run
      (fun r log' => ∀ st', r = .ok st' → Right ctx st' (after i s₀ log')) log := by
  obtain ⟨n, hmarks⟩ := hright
  refine wp_only (n := n) (Surface.only_setWindowSize fun _ _ => trivial) fun _ log₁ hspared₁ => ?_
  refine wp_only (n := n) (.ask (.ret _)) fun connection' log₂ hspared₂ => ?_
  refine wp_only (n := n) (Surface.only_applyActiveRecords (fun _ _ => trivial) (fun _ => trivial) _ _)
    fun applied log₃ hspared₃ => ?_
  have hspared := (hspared₁.trans hspared₂).trans hspared₃
  rcases applied with ⟨_ | _, ptyInput⟩
  · refine wp_only (n := n) (.lift (Calls.perform trivial)) fun _ log₄ hspared₄ =>
      wp_ret.mpr ?_
    rintro _ ⟨⟩
    exact ⟨n, hmarks.spared (hspared.trans hspared₄) rfl⟩
  · have hmarks₃ := hmarks.spared hspared rfl
    have hapart : Apart n { st with ptyInput }.trace := hmarks₃.apart
    refine wp_yields (yields_eventIf hapart _ _) fun st₁ log₄ hst₁ hspared₄ => ?_
    have hmarks₄ := hmarks₃.spared hspared₄ hst₁.trace
    refine wp_yields (yields_event hmarks₄.apart _) fun st₂ log₅ hst₂ hspared₅ => ?_
    have hmarks₅ := hmarks₄.spared hspared₅ hst₂.trace
    refine wp_only (n := n) (.lift (Calls.perform trivial)) fun _ log₆ hspared₆ => ?_
    refine wp_only (n := n) (.lift (spares_closeConnection st₂.active))
      fun _ log₇ hspared₇ => ?_
    have hmarks₇ := hmarks₅.spared (hspared₆.trans hspared₇) rfl
    refine wp_seq _ (wp_writeLive hmarks₇.below) (fun _ log₈ h => wp_ret.mpr ?_)
      (by rintro error log' - _ ⟨⟩)
    rintro _ ⟨⟩
    exact h () rfl

/-- A step that leaves the record alone and keeps the attachment. -/
theorem Right.stays {st' : LoopState} {s s' : Kernel} (h : Marks ctx st.active.isSome st.trace n s)
    (hspared : Spared n s s') (hst : Stays st st') : Right ctx st' s' := by
  refine ⟨n, ?_⟩
  rw [hst.active]
  exact h.spared hspared hst.trace

theorem wp_handleCandidate {connection : Connection} (hright : Right ctx st (after i s₀ log)) :
    (solo i s₀ F fun _ => True).wp () (ctx.handleCandidate connection st).run
      (fun r log' => ∀ handled, r = .ok handled → Right ctx handled.2 (after i s₀ log')) log := by
  obtain ⟨n, hmarks⟩ := hright
  unfold RunnerContext.handleCandidate
  refine wp_attempt_bind.mpr (wp_mono ?_ (wp_spares (n := n)
    (Surface.yields_readRecords fun _ => trivial).only))
  rintro (error | ⟨records, connection'⟩) log₁ ⟨-, hspared₁⟩
  · have hmarks₁ := hmarks.spared hspared₁ rfl
    refine wp_yields (.lift (spares_ioErrorEvent hmarks₁.apart _ _)) fun st₂ log₂ hst₂ hspared₂ => ?_
    refine wp_yields (n := n) (.lift spares_dropCandidate) fun st₃ log₃ hst₃ hspared₃ => wp_ret.mpr ?_
    rintro _ ⟨⟩
    exact .stays hmarks₁ (hspared₂.trans hspared₃) (hst₂.trans hst₃)
  · have hmarks₁ := hmarks.spared hspared₁ rfl
    have hdismiss : (solo i s₀ F fun _ => True).wp () (ctx.dismissCandidate st).run
        (fun r log' => ∀ handled, r = .ok handled → Right ctx handled.2 (after i s₀ log')) log₁ := by
      refine wp_yields (yields_event hmarks₁.apart _) fun st₂ log₂ hst₂ hspared₂ => ?_
      refine wp_yields (n := n) (.lift spares_dropCandidate) fun st₃ log₃ hst₃ hspared₃ => wp_ret.mpr ?_
      rintro _ ⟨⟩
      exact .stays hmarks₁ (hspared₂.trans hspared₃) (hst₂.trans hst₃)
    split
    · rename_i heq
      cases heq
    · refine wp_ret.mpr ?_
      rintro _ ⟨⟩
      exact .stays hmarks₁ (.refl _ _) ⟨rfl, rfl⟩
    · have hright : Right ctx { st with candidate := none } (after i s₀ log₁) := ⟨n, hmarks₁⟩
      refine wp_seq _ (wp_activate hright) (fun st₂ log₂ h => wp_ret.mpr ?_) (by rintro error log' - _ ⟨⟩)
      rintro _ ⟨⟩
      exact h st₂ rfl
    · refine wp_yields (yields_event hmarks₁.apart _) fun st₂ log₂ hst₂ hspared₂ => ?_
      refine wp_yields (n := n) (.lift spares_dropCandidate) fun st₃ log₃ hst₃ hspared₃ => ?_
      refine wp_only (n := n) (.lift (Calls.perform trivial)) fun _ log₄ hspared₄ => wp_ret.mpr ?_
      rintro _ ⟨⟩
      exact .stays hmarks₁ ((hspared₂.trans hspared₃).trans hspared₄) (hst₂.trans hst₃)
    · exact hdismiss

theorem wp_handleEvents {events : PollReply} (hright : Right ctx st (after i s₀ log)) :
    (solo i s₀ F fun _ => True).wp () (ctx.handleEvents events (RunnerContext.pollRequest st) st).run
      (fun r log' => ∀ handled, r = .ok handled → Right ctx handled.2 (after i s₀ log')) log := by
  obtain ⟨n, hmarks⟩ := hright
  unfold RunnerContext.handleEvents
  have hflush : Yields (Spares n) (Drops st)
      (if events.pty.writable then liftM (ctx.flushPtyInput st) else pure st : Io LoopState) := by
    split_ifs
    · exact .lift (spares_flushPtyInput hmarks.apart)
    · exact .pure (.refl st)
  refine wp_yields hflush fun st₁ log₁ hst₁ hspared₁ => ?_
  have hmarks₁ := hmarks.spared hspared₁ hst₁.trace
  -- The attachment that was polled may be gone, and then it is handled.
  have hactive : (solo i s₀ F fun _ => True).wp ()
      (ExceptT.run (if (RunnerContext.pollRequest st).active.isSome then ctx.handleActive events.active st₁
        else pure st₁ : Io LoopState))
      (fun r log' => ∀ st', r = .ok st' → Right ctx st' (after i s₀ log')) log₁ := by
    split_ifs with hpolled
    · exact wp_handleActive hmarks₁ hst₁.active
    · refine wp_ret.mpr ?_
      rintro _ ⟨⟩
      have hnone : st.active.isSome = false := by
        simpa [RunnerContext.pollRequest] using hpolled
      have hnone₁ : st₁.active.isSome = false := by
        by_contra hsome
        rw [Bool.not_eq_false] at hsome
        rw [hst₁.active hsome] at hnone
        cases hnone
      refine ⟨n, ?_⟩
      rw [hnone₁, ← hnone]
      exact hmarks₁
  refine wp_seq _ hactive (fun st₂ log₂ h₂ => ?_) (by rintro error log' - _ ⟨⟩)
  obtain ⟨n₂, hmarks₂⟩ := h₂ st₂ rfl
  have haccept : Yields (Spares n₂) (Stays st₂)
      (if events.listener.readable then ctx.acceptCandidate ctx.self.rounds st₂
        else pure st₂ : Io LoopState) := by
    split_ifs
    · exact yields_acceptCandidate hmarks₂.apart _
    · exact .pure (.refl st₂)
  refine wp_yields haccept fun st₃ log₃ hst₃ hspared₃ => ?_
  have hright₃ : Right ctx st₃ (after i s₀ log₃) := .stays hmarks₂ hspared₃ hst₃
  have hdone : (solo i s₀ F fun _ => True).wp () (ExceptT.run (pure (false, st₃) : Io (Bool × LoopState)))
      (fun r log' => ∀ handled, r = .ok handled → Right ctx handled.2 (after i s₀ log')) log₃ := by
    refine wp_ret.mpr ?_
    rintro _ ⟨⟩
    exact hright₃
  split_ifs
  · cases hcandidate : st₃.candidate with
    | none => exact hdone
    | some connection => exact wp_handleCandidate hright₃
  · exact hdone

/-- **A turn that does not leave the loop keeps the record right.** -/
theorem wp_tick (hright : Right ctx st (after i s₀ log)) :
    (solo i s₀ F fun _ => True).wp () (ctx.tick st).run
      (fun r log' => ∀ turn, r = .ok turn → ∀ st', turn = .again st' →
        Right ctx st' (after i s₀ log')) log := by
  obtain ⟨n, hmarks⟩ := hright
  unfold RunnerContext.tick
  refine wp_yields (yields_drainPty hmarks.apart _ _) fun st₁ log₁ hst₁ hspared₁ => ?_
  have hmarks₁ := hmarks.spared hspared₁ hst₁.trace
  -- The record is rewritten when draining has dropped the attachment.
  have hfull : (solo i s₀ F fun _ => True).wp ()
      (ExceptT.run (if st.active.isSome ∧ st₁.active.isNone then ctx.outputQueueFull st₁
        else pure st₁ : Io LoopState))
      (fun r log' => ∀ st', r = .ok st' → Right ctx st' (after i s₀ log')) log₁ := by
    split_ifs with hlost
    · exact wp_outputQueueFull hmarks₁ (by simpa using hlost.2)
    · refine wp_ret.mpr ?_
      rintro _ ⟨⟩
      have hsame : st₁.active.isSome = st.active.isSome := by
        rw [Bool.eq_iff_iff]
        refine ⟨hst₁.active, fun hsome => ?_⟩
        by_contra hnone
        exact hlost ⟨hsome, by simpa using hnone⟩
      refine ⟨n, ?_⟩
      rw [hsame]
      exact hmarks₁
  refine wp_seq _ hfull (fun st₂ log₂ h₂ => ?_) (by rintro error log' - _ ⟨⟩)
  obtain ⟨n₂, hmarks₂⟩ := h₂ st₂ rfl
  refine wp_only (n := n₂) (.ask (.perform trivial)) fun status log₃ hspared₃ => ?_
  have hmarks₃ := hmarks₂.spared hspared₃ rfl
  cases status with
  | some status =>
    refine wp_yields (yields_event hmarks₃.apart _) fun st₄ log₄ _ _ => wp_ret.mpr ?_
    rintro _ ⟨⟩ st' ⟨⟩
  | none =>
    refine wp_attempt_bind.mpr (wp_mono ?_ (wp_spares (n := n₂) (Calls.perform trivial)))
    rintro (error | events) log₄ ⟨-, hspared₄⟩
    · have hmarks₄ := hmarks₃.spared hspared₄ rfl
      dsimp only
      split_ifs
      · refine wp_ret.mpr ?_
        rintro _ ⟨⟩ st' ⟨⟩
        exact ⟨n₂, hmarks₄⟩
      · refine wp_yields (.lift (spares_ioErrorEvent hmarks₄.apart _ _))
          fun st₅ log₅ _ _ => wp_ret.mpr ?_
        rintro _ ⟨⟩
    · refine wp_seq _ (wp_handleEvents ⟨n₂, hmarks₃.spared hspared₄ rfl⟩)
        (fun handled log₅ h => wp_ret.mpr ?_) (by rintro error log' - _ ⟨⟩)
      rintro turn hturn st' rfl
      rcases handled with ⟨_ | _, st₅⟩
      · obtain rfl : st₅ = st' := by simpa using hturn
        exact h _ rfl
      · cases hturn

/-! ### The start -/

/-- The files of the trace are among the inodes in use. -/
def Below (trace : Option Trace) (s : Kernel) : Prop := ∀ t ∈ trace, t.file < s.fresh

theorem Below.spared {trace' : Option Trace} {s s' : Kernel} (h : Below trace s)
    (hsame : SameFile trace trace') (hspared : Spared s.fresh s s') : Below trace' s' := by
  intro t' ht'
  have hfile : trace.map Trace.file = some t'.file := by
    rw [← hsame, ht']
    rfl
  obtain ⟨t, ht, hfile⟩ := Option.map_eq_some_iff.mp hfile
  rw [← hfile]
  exact Nat.lt_of_lt_of_le (h t ht) hspared.fresh_le

/-- The next inode is no file of the trace. -/
theorem Below.takes {s : Kernel} (h : Below trace s) : TakesTrace (Spares s.fresh) trace :=
  ⟨trivial, fun t ht _ => Nat.ne_of_lt (h t ht)⟩

theorem wp_createTrace {self : Self} {name : Name} {component : String} {enabled : Bool} :
    (solo i s₀ F fun _ => True).wp ()
      (ExceptT.run (if enabled then some <$> Trace.create self name component else pure none : Io _))
      (fun r log' => ∀ trace, r = .ok trace → Below trace (after i s₀ log')) log := by
  split_ifs
  · rw [map_eq_pure_bind, Trace.create, bind_assoc]
    refine wp_io_bind.mpr (wp_alone unobserved_true (by rintro _ ⟨⟩) fun r hr => ?_)
    obtain ⟨error, rfl, -, -⟩ | ⟨-, rfl, hnext⟩ := hr.createNew
    · exact wp_ret.mpr (by rintro _ ⟨⟩)
    · have hnext' : (after i s₀ (⟨.file (.createNew name 0o600), .ok (after i s₀ log).fresh⟩ ::
          log)).fresh = (after i s₀ log).fresh + 1 := congrArg Kernel.fresh hnext
      have hbelow : Below (some { file := (after i s₀ log).fresh, component, written := 0 })
          (after i s₀ (⟨.file (.createNew name 0o600), .ok (after i s₀ log).fresh⟩ :: log)) := by
        rintro _ ⟨⟩
        rw [hnext']
        exact Nat.lt_succ_self _
      refine wp_yields (.lift (within_traceWrite hbelow.takes _ _)) fun trace' log₁ hfile hspared =>
        wp_ret.mpr ?_
      rintro _ ⟨⟩
      exact hbelow.spared (congrArg some hfile) hspared
  · refine wp_ret.mpr ?_
    rintro _ ⟨⟩ t ⟨⟩

theorem yields_spawnChild {self : Self} {config : StartupConfig}
    (h : TakesTrace (Spares n) trace) :
    Yields (Spares n) (fun spawned => SameFile trace spawned.1) (spawnChild self config trace) := by
  have hcommand : Calls (Spares n) (startCommand self config) := by
    unfold startCommand
    split_ifs
    · refine .bind ?_ fun _ => .ret _
      unfold defaultShell
      split
      · exact .bind (.perform trivial) fun _ => .ret _
      · exact .ret _
    · exact .ret _
  refine .lift_bind hcommand fun command _ => ?_
  refine .bind (.of_only (.ask (.perform trivial)) fun _ => trivial) (P := fun _ => True) fun _ _ => ?_
  refine .bind (.of_only (.ask (.perform trivial)) fun _ => trivial) (P := fun _ => True) fun _ _ => ?_
  refine .bind (.of_only (.ask (.perform trivial)) fun _ => trivial) (P := fun _ => True) fun _ _ => ?_
  refine .lift_bind (within_traceEvent h _) fun trace' htrace' => ?_
  refine .bind (.of_only (.ask (.perform trivial)) fun _ => trivial) (P := fun _ => True) fun _ _ => ?_
  exact .lift_bind (P := fun _ => True) (Calls.perform trivial) fun _ _ => .pure htrace'

theorem wp_prepareRunner {self : Self} {registry : Registry} {session : SessionId}
    {files : SessionFiles} {config : StartupConfig} :
    (solo i s₀ F fun _ => True).wp () (prepareRunner self registry session files config).run
      (fun r log' => ∀ prepared, r = .ok prepared →
        (prepared.1.files = files ∧ prepared.1.registry = registry) ∧
          ∃ n, Marks prepared.1 false prepared.2 n (after i s₀ log')) log := by
  refine wp_seq _ wp_createTrace (fun trace log₁ h₁ => ?_) (by rintro error log' - _ ⟨⟩)
  have hbelow₁ := h₁ trace rfl
  refine wp_yields (.lift (within_traceEvent hbelow₁.takes _)) fun trace₂ log₂ htrace₂ hspared₂ => ?_
  have hbelow₂ := hbelow₁.spared htrace₂ hspared₂
  have hpty : Only (Spares (after i s₀ log₂).fresh) (createPty config.rows config.columns) := by
    refine .bind ?_ fun _ => .ask (.perform trivial)
    unfold validateDimensions
    split_ifs
    · exact .pure _
    · exact .throw _
  refine wp_only hpty fun _ log₃ hspared₃ => ?_
  have hbelow₃ := hbelow₂.spared rfl hspared₃
  refine wp_attempt_bind.mpr (wp_mono ?_ (wp_spares (yields_spawnChild hbelow₃.takes)))
  rintro (error | ⟨trace₄, startedAt, childPid⟩) log₄ ⟨hspawned, hspared₄⟩
  · refine wp_only (n := 0) (.lift (Calls.perform trivial)) fun _ log₅ _ => wp_ret.mpr ?_
    rintro _ ⟨⟩
  have hbelow₄ := hbelow₃.spared (hspawned _ rfl) hspared₄
  refine wp_attempt_bind.mpr (wp_seq _ (wp_writeLive hbelow₄) (fun _ log₅ h₅ => ?_) ?_)
  · obtain ⟨m, hm⟩ := h₅ () rfl
    refine wp_recorded fun r _ => ⟨trivial, ?_⟩
    have hspared₆ : Spared m (after i s₀ log₅)
        (after i s₀ (⟨.process (.sendResponse startupReady), r⟩ :: log₅)) :=
      .process (.sendResponse startupReady) r
    obtain error | _ := r
    · refine wp_only (n := 0) (.lift (Calls.perform trivial)) fun _ log₇ _ => ?_
      refine wp_only (n := 0) (.ignore (.ask (.perform trivial))) fun _ log₈ _ => ?_
      refine wp_only (n := 0) (.ignore (.ask (.perform trivial))) fun _ log₉ _ => wp_ret.mpr ?_
      rintro _ ⟨⟩
    · refine wp_ret.mpr ?_
      rintro _ ⟨⟩
      exact ⟨⟨rfl, rfl⟩, m, hm.spared hspared₆ rfl⟩
  · rintro error log₅ -
    refine wp_only (n := 0) (.lift (Calls.perform trivial)) fun _ log₇ _ => ?_
    refine wp_only (n := 0) (.ignore (.ask (.perform trivial))) fun _ log₈ _ => ?_
    refine wp_only (n := 0) (.ignore (.ask (.perform trivial))) fun _ log₉ _ => wp_ret.mpr ?_
    rintro _ ⟨⟩

end turns

end Presence

/-! ## Turns of the loop -/

/-- Some turns of the event loop. -/
def RunnerContext.turns (ctx : RunnerContext) : Nat → LoopState → Io Turn
  | 0, st => return .again st
  | count + 1, st => do
    match ← ctx.tick st with
    | .again st => turns ctx count st
    | turn => return turn

/-- What the loop does after a turn. -/
def RunnerContext.afterTurn (ctx : RunnerContext) (rounds : Nat) : Turn → Io Turn
  | .again st => ctx.eventLoop rounds st
  | turn => return turn

/-- The event loop begins with its turns. -/
theorem eventLoop_add (ctx : RunnerContext) (count rounds : Nat) (st : LoopState) :
    ctx.eventLoop (count + rounds) st = ctx.turns count st >>= ctx.afterTurn rounds := by
  induction count generalizing st with
  | zero =>
    rw [Nat.zero_add]
    exact (pure_bind (Turn.again st) (ctx.afterTurn rounds)).symm
  | succ count ih =>
    rw [Nat.succ_add]
    unfold RunnerContext.eventLoop RunnerContext.turns
    rw [bind_assoc]
    congr 1
    funext turn
    cases turn with
    | again st' => exact ih st'
    | exited st' exit => exact (pure_bind (Turn.exited st' exit) (ctx.afterTurn rounds)).symm
    | stopRequested st' =>
      exact (pure_bind (Turn.stopRequested st') (ctx.afterTurn rounds)).symm

/-- The runner from its preparation to the end of some turns of its event loop. -/
def startedTurns (self : Self) (registry : Registry) (session : SessionId) (files : SessionFiles)
    (config : StartupConfig) (count : Nat) : Io (RunnerContext × Turn) := do
  let (ctx, trace) ← prepareRunner self registry session files config
  ask (process .setPtyNonblocking)
  let turn ← ctx.turns count (.start trace)
  return (ctx, turn)

namespace Presence

variable {i : Proc} {s₀ : Kernel} {F : Faults} {log : RunnerLog} {ctx : RunnerContext}

theorem wp_turns (count : Nat) {st : LoopState} (hright : Right ctx st (after i s₀ log)) :
    (solo i s₀ F fun _ => True).wp () (ctx.turns count st).run
      (fun r log' => ∀ turn, r = .ok turn → ∀ st', turn = .again st' →
        Right ctx st' (after i s₀ log')) log := by
  induction count generalizing log st with
  | zero =>
    refine wp_ret.mpr ?_
    rintro _ ⟨⟩ st' ⟨⟩
    exact hright
  | succ count ih =>
    refine wp_seq _ (wp_tick hright) (fun turn log₁ h => ?_) (by rintro error log' - _ ⟨⟩)
    cases turn with
    | again st' => exact ih (h _ rfl st' rfl)
    | exited st' exit =>
      refine wp_ret.mpr ?_
      rintro _ ⟨⟩ _ ⟨⟩
    | stopRequested st' =>
      refine wp_ret.mpr ?_
      rintro _ ⟨⟩ _ ⟨⟩

theorem wp_startedTurns {self : Self} {registry : Registry} {session : SessionId}
    {files : SessionFiles} {config : StartupConfig} (count : Nat) :
    (solo i s₀ F fun _ => True).wp () (startedTurns self registry session files config count).run
      (fun r log' => ∀ started, r = .ok started → ∀ st, started.2 = .again st →
        (started.1.files = files ∧ started.1.registry = registry) ∧
          Right started.1 st (after i s₀ log')) log := by
  refine wp_seq _ wp_prepareRunner (fun prepared log₁ h₁ => ?_) (by rintro error log' - _ ⟨⟩)
  obtain ⟨hctx, n, hmarks⟩ := h₁ prepared rfl
  rcases prepared with ⟨ctx, trace⟩
  refine wp_io_bind.mpr (wp_recorded fun r _ => ⟨trivial, ?_⟩)
  have hspared₂ : Spared n (after i s₀ log₁)
      (after i s₀ (⟨.process .setPtyNonblocking, r⟩ :: log₁)) :=
    .process .setPtyNonblocking r
  obtain error | _ := r
  · refine wp_ret.mpr ?_
    rintro _ ⟨⟩
  have hright : Right ctx (.start trace) (after i s₀ (⟨.process .setPtyNonblocking, .ok ()⟩ :: log₁)) :=
    ⟨n, hmarks.spared hspared₂ rfl⟩
  refine wp_seq _ (wp_turns count hright) (fun turn log₃ h₃ => wp_ret.mpr ?_)
    (by rintro error log' - _ ⟨⟩)
  rintro _ ⟨⟩ st rfl
  exact ⟨hctx, h₃ _ rfl st rfl⟩

end Presence

/-- **The recorded attached flag is right**: from the start of the runner, whatever its calls
answer and whichever of them fail, after every turn of the event loop that does not leave it the
live record says whether there is an active attachment. -/
theorem attached_recorded :
    (∀ (ctx : RunnerContext) (count rounds : Nat) (st : LoopState),
      ctx.eventLoop (count + rounds) st = ctx.turns count st >>= ctx.afterTurn rounds) ∧
    ∀ (i : Proc) (s₀ : Kernel) (F : Faults) (self : Self) (registry : Registry)
      (session : SessionId) (files : SessionFiles) (config : StartupConfig) (count : Nat)
      (log : RunnerLog) (ctx : RunnerContext) (st : LoopState),
      Runs (alone i s₀ F) (startedTurns self registry session files config count).run log
          (.ret (.ok (ctx, .again st))) →
        ∃ n, (after i s₀ log).dir files.paths.metadata = some n ∧
          registry.serde.fromSlice ((after i s₀ log).inode n).bytes =
            some (ctx.liveMetadata st.active.isSome) := by
  refine ⟨eventLoop_add, ?_⟩
  intro i s₀ F self registry session files config count log ctx st hrun
  obtain ⟨-, hresult⟩ := log_sound trivial (Presence.wp_startedTurns count) hrun
  obtain ⟨⟨rfl, rfl⟩, n, hmarks⟩ := hresult _ rfl _ rfl st rfl
  exact ⟨n, hmarks.entry, hmarks.record⟩

/-! ## Two visits -/

namespace Presence

def registry : Registry where
  root := ascii "/root/.afk/run"
  uid := 0
  serde := jsonSerde

def self : Self := ⟨7, 0, some (ascii "/root"), none, 4⟩

def session : SessionId := ⟨List.replicate 16 3, by decide⟩

def files : SessionFiles := ⟨0, 1, sessionPaths session⟩

def config : StartupConfig := ⟨true, [ascii "/bin/true"], 24, 80⟩

/-- A client attaches, a second one takes its place, and the second one leaves. -/
def visitors : Scene where
  accepts := [.ok 5, .error (.os .wouldBlock 11), .ok 6]
  polls := [Scene.atListener, Scene.atCandidate, Scene.atListener, Scene.atCandidate,
    Scene.atActive]
  reads := [.ok (writeRecord (.attach 24 80)), .ok (writeRecord (.attach 30 90)), .ok []]

theorem visitors_plain : visitors.Plain := by constructor <;> decide

/-- After some turns the attachment is as given, and the record says whether there is one. -/
def Visited (count : Nat) (active : Option Fd) : Prop :=
  ∃ log ctx st n, Runs (alone (.runner 0) (.stocked 0 100 []) .none)
      (startedTurns self registry session files config count).run log (.ret (.ok (ctx, .again st))) ∧
    st.active.map Connection.stream = active ∧
      (after (.runner 0) (.stocked 0 100 []) log).dir files.paths.metadata = some n ∧
        jsonSerde.fromSlice ((after (.runner 0) (.stocked 0 100 []) log).inode n).bytes =
          some (ctx.liveMetadata active.isSome)

/-- The visitors are played, and the attachment after some turns is as given. -/
def plays (count : Nat) (active : Option Fd) : Bool :=
  ((startedTurns self registry session files config count).run.run
    (Kernel.Played.outside (.runner 0)) (visitors, (.stocked 0 100 [], []), [])).any fun result =>
      match result.1 with
      | .ok (_, .again st) => st.active.map Connection.stream = active
      | _ => false

end Presence

open Presence in
/-- The flag is set while the first client is attached and after the second one took its place, and
it is cleared when that one left. -/
theorem attached_recorded_visits :
    Visited 2 (some 5) ∧ Visited 4 (some 6) ∧ Visited 5 none := by
  have hvisited : ∀ count active, plays count active = true → Visited count active := by
    intro count active hplays
    obtain ⟨⟨r, scene, stage, log⟩, hplay, hr⟩ := (Option.any_eq_true _ _).mp hplays
    obtain ⟨ctx, st, rfl, hactive⟩ : ∃ ctx st, r = .ok (ctx, .again st) ∧
        st.active.map Connection.stream = active := by
      rcases r with error | ⟨ctx, st | st | st⟩
      · cases hr
      · exact ⟨ctx, st, rfl, of_decide_eq_true hr⟩
      · cases hr
      · cases hr
    obtain ⟨hrun, -⟩ := runs_played Kernel.stocked_covers visitors_plain hplay
    obtain ⟨n, hentry, hrecord⟩ := attached_recorded.2 _ _ _ _ _ _ _ _ _ _ _ _ hrun
    refine ⟨log, ctx, st, n, hrun, hactive, hentry, ?_⟩
    rw [← hactive, Option.isSome_map]
    exact hrecord
  exact ⟨hvisited 2 (some 5) (by decide +kernel), hvisited 4 (some 6) (by decide +kernel),
    hvisited 5 none (by decide +kernel)⟩

end AfkCli
