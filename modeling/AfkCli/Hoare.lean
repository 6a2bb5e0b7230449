import AfkCli.Effect
import AfkCli.Interaction.Monitor

/-!
# Rules for programs that may fail

The weakest precondition of `Io` programs under a discipline, one rule for each way the source
sequences them, and the same rules for following a monitor.

## Main results

* `wp_io_bind`, `wp_attempt_bind`, `wp_ignore_bind`, `wp_lift_bind`: sequencing
* `wp_perform`: a single call
* `follows_seq`, `follows_attempt_bind`, `follows_ignore_bind`, `follows_lift_bind`: sequencing under
  a monitor
-/

namespace AfkCli

open Interaction Discipline

variable {ι S α β : Type} {M : Machine ι Call Call.Answer S} {D : Discipline M} {i : ι}

/-- `?`: continue with a result, pass an error on. -/
theorem wp_io_bind {p : Io α} {f : α → Io β} {Q : Except IoError β → S → Prop} {s : S} :
    D.wp i (p >>= f).run Q s ↔ D.wp i p.run (fun r s' => D.wp i (onOk f r) Q s') s := by
  rw [run_bind, wp_bind]

theorem wp_attempt_bind {p : Io α} {f : Except IoError α → Io β} {Q : Except IoError β → S → Prop}
    {s : S} :
    D.wp i (attempt p >>= f).run Q s ↔ D.wp i p.run (fun r s' => D.wp i (f r).run Q s') s := by
  rw [run_attempt_bind, wp_bind]

theorem wp_ignore_bind {p : Io α} {f : Unit → Io β} {Q : Except IoError β → S → Prop} {s : S} :
    D.wp i (ignore p >>= f).run Q s ↔ D.wp i p.run (fun _ s' => D.wp i (f ()).run Q s') s := by
  rw [run_ignore_bind, wp_bind]

theorem wp_lift_bind {p : Prog α} {f : α → Io β} {Q : Except IoError β → S → Prop} {s : S} :
    D.wp i ((liftM p : Io α) >>= f).run Q s ↔
      D.wp i p (fun a s' => D.wp i (f a).run Q s') s := by
  rw [run_lift_bind, wp_bind]

theorem wp_lift {p : Prog α} {Q : Except IoError α → S → Prop} {s : S} :
    D.wp i (liftM p : Io α).run Q s ↔ D.wp i p (fun a s' => Q (.ok a) s') s := by
  rw [run_lift, wp_bind]
  rfl

/-- The rule of `?` with an assertion about the result of the first program. -/
theorem wp_seq {p : Io α} {f : α → Io β} {Q : Except IoError β → S → Prop} {s : S}
    (R : Except IoError α → S → Prop) (hp : D.wp i p.run R s)
    (hok : ∀ a s', R (.ok a) s' → D.wp i (f a).run Q s')
    (herror : ∀ error s', R (.error error) s' → Q (.error error) s') :
    D.wp i (p >>= f).run Q s := by
  refine wp_io_bind.mpr (wp_mono (fun r s' hr => ?_) hp)
  cases r with
  | ok a => exact hok a s' hr
  | error error => exact herror error s' hr

/-- A single call, with an assertion that holds until it is made. -/
theorem wp_perform {op : Call} {Q : op.Answer → S → Prop} {s : S} (P : S → Prop) (hP : P s)
    (hstable : D.Stable i (some op) P)
    (h : ∀ s' n, P s' → D.inv s' → n i = some op → D.guard i op s' n →
      D.guar i op s' ∧ ∀ r s'', D.inv s'' → M.exec i op s' r s'' → Q r s'') :
    D.wp i (Program.perform op) Q s := by
  refine wp_call P hP hstable fun s' n hP' hinv hn hg => ?_
  obtain ⟨hguar, hk⟩ := h s' n hP' hinv hn hg
  exact ⟨hguar, fun r s'' he => hk r s'' (D.inv_exec hinv hn hg hguar he) he⟩

/-! ## Interference on the system -/

section kernel

variable {A : Outside} {F : Failures} {D : Discipline (Kernel.machine A F)} {i : Proc} {mine : Option Call}
  {s s' : Kernel}

/-- What another process or the environment does between two calls of process `i`. -/
theorem rely_cases (h : D.Rely i mine s s') :
    D.inv s ∧ D.inv s' ∧
      ((∃ j op n, j ≠ i ∧ n i = mine ∧ D.guard j op s n ∧ D.guar j op s ∧ Effect j op s s' ∧
          SameHost s s') ∨
        (∃ now, s.clock ≤ now ∧ s' = { s with clock := now }) ∨
        ∃ j, j ≠ i ∧ s' = s.kill j) := by
  obtain ⟨hinv, hinv', ⟨j, op, r, n, hj, hn, -, hguard, hguar, hexec⟩ | henv | hcrash⟩ := h
  · exact ⟨hinv, hinv', .inl ⟨j, op, n, hj, hn, hguard, hguar, Kernel.effect hexec,
      Kernel.exec_same hexec⟩⟩
  · exact ⟨hinv, hinv', .inr (.inl henv)⟩
  · exact ⟨hinv, hinv', .inr (.inr hcrash)⟩

end kernel

/-! ## Monitors -/

section monitors

variable {σ : Type} {M : Monitor Call Call.Answer σ} {A : σ → (op : Call) → op.Answer → Prop}
  {s : σ}

theorem follows_io_bind {p : Io α} {f : α → Io β} {Q : Except IoError β → σ → Prop} :
    M.Follows A (p >>= f).run Q s ↔
      M.Follows A p.run (fun r s' => M.Follows A (onOk f r) Q s') s := by
  rw [run_bind, Monitor.follows_bind]

/-- `?`, with an assertion about the result of the first program. -/
theorem follows_seq {p : Io α} {f : α → Io β} {Q : Except IoError β → σ → Prop}
    (R : Except IoError α → σ → Prop) (hp : M.Follows A p.run R s)
    (hok : ∀ a s', R (.ok a) s' → M.Follows A (f a).run Q s')
    (herror : ∀ error s', R (.error error) s' → Q (.error error) s') :
    M.Follows A (p >>= f).run Q s := by
  refine follows_io_bind.mpr (hp.mono fun r s' hr => ?_)
  cases r with
  | ok a => exact hok a s' hr
  | error error => exact herror error s' hr

theorem follows_attempt_bind {p : Io α} {f : Except IoError α → Io β}
    {Q : Except IoError β → σ → Prop} :
    M.Follows A (attempt p >>= f).run Q s ↔
      M.Follows A p.run (fun r s' => M.Follows A (f r).run Q s') s := by
  rw [run_attempt_bind, Monitor.follows_bind]

theorem follows_lift_bind {p : Prog α} {f : α → Io β} {Q : Except IoError β → σ → Prop} :
    M.Follows A ((liftM p : Io α) >>= f).run Q s ↔
      M.Follows A p (fun a s' => M.Follows A (f a).run Q s') s := by
  rw [run_lift_bind, Monitor.follows_bind]

theorem follows_lift {p : Prog α} {Q : Except IoError α → σ → Prop} :
    M.Follows A (liftM p : Io α).run Q s ↔ M.Follows A p (fun a s' => Q (.ok a) s') s := by
  rw [run_lift, Monitor.follows_bind]
  exact Iff.rfl

end monitors

end AfkCli
