import AfkCli.Interaction.Log

/-!
# Histories

Several programs run against one outside. The history of a run records every call with its answer
and the process that made it. What a single process does is its own log, so a property of all logs
of its program holds of its part of every history, in whatever order the processes take turns.

## Main definitions

* `History`: calls, answers and who made them, the newest first
* `historyMachine`: the machine that records what a family of programs does
* `own`: the log of one process

## Main results

* `runs_own`: a process's own log is a log of its program
* `admitted_of_reaches`: every answer of a history is one the outside may give
-/

namespace Interaction

open Relation

variable {ι Op : Type} {Ans : Op → Type} {α : ι → Type}

/-- What happened and who did it, the newest event first. -/
abbrev History (ι Op : Type) (Ans : Op → Type) := List (ι × Event Op Ans)

/-- The answers an outside may give a process after a history. -/
abbrev Replies (ι Op : Type) (Ans : Op → Type) := History ι Op Ans → ι → (op : Op) → Ans op → Prop

/-- The machine that records the calls of a family of programs; a process may be killed at any
time. -/
def historyMachine (A : Replies ι Op Ans) : Machine ι Op Ans (History ι Op Ans) where
  exec i op h r h' := A h i op r ∧ h' = (i, ⟨op, r⟩) :: h
  env _ _ := False
  crash _ h h' := h' = h

/-- The processes `p` can make the calls of the history. -/
def Happens [DecidableEq ι] (A : Replies ι Op Ans) (p : (i : ι) → Program Op Ans (α i))
    (h : History ι Op Ans) (p' : (i : ι) → Program Op Ans (α i)) : Prop :=
  Reaches (historyMachine A) Guard.any ⟨[], p⟩ ⟨h, p'⟩

/-- The log of one process. -/
def own [DecidableEq ι] (i : ι) : History ι Op Ans → Log Op Ans
  | [] => []
  | (j, e) :: h => if j = i then e :: own i h else own i h

/-- Every answer of the history is one the outside may give. -/
def Admitted (A : Replies ι Op Ans) : History ι Op Ans → Prop
  | [] => True
  | (i, e) :: h => A h i e.op e.answer ∧ Admitted A h

section own

variable [DecidableEq ι] {A : Replies ι Op Ans} {p p' : (i : ι) → Program Op Ans (α i)}
  {h : History ι Op Ans}

@[simp] theorem own_same (i : ι) (e : Event Op Ans) (h : History ι Op Ans) :
    own i ((i, e) :: h) = e :: own i h := if_pos rfl

theorem own_other {i j : ι} (hj : j ≠ i) (e : Event Op Ans) (h : History ι Op Ans) :
    own i ((j, e) :: h) = own i h := if_neg hj

/-- A process of a run makes its next call. -/
theorem Happens.call (hrun : Happens A p h p') {i : ι} (op : Op) (r : Ans op)
    {k : Ans op → Program Op Ans (α i)} (hpool : p' i = .call op k) (hr : A h i op r) :
    Happens A p ((i, ⟨op, r⟩) :: h) (Function.update p' i (k r)) :=
  hrun.tail (.call hpool trivial ⟨hr, rfl⟩)

theorem admitted_of_reaches (hrun : Happens A p h p') : Admitted A h := by
  have hstep : ∀ c c' : Config ι Op Ans α (History ι Op Ans),
      Reaches (historyMachine A) Guard.any c c' → Admitted A c.state → Admitted A c'.state := by
    intro c c' hreach hc
    induction hreach with
    | refl => exact hc
    | tail _ hstep ih =>
      cases hstep with
      | call _ _ hexec =>
        obtain ⟨hanswer, rfl⟩ := hexec
        exact ⟨hanswer, ih⟩
      | env henv => exact henv.elim
      | crash hcrash =>
        obtain rfl := hcrash
        exact ih
  exact hstep _ _ hrun trivial

/-- **A process's own log is a log of its program**, up to where the process was killed. -/
theorem runs_own (hrun : Happens A p h p') (i : ι) :
    ∃ q, Runs (fun _ _ _ => True) (p i) (own i h) q ∧ (p' i = q ∨ p' i = .spin) := by
  have hstep : ∀ c c' : Config ι Op Ans α (History ι Op Ans),
      Reaches (historyMachine A) Guard.any c c' →
        (∃ q, Runs (fun _ _ _ => True) (p i) (own i c.state) q ∧
          (c.pool i = q ∨ c.pool i = .spin)) →
        ∃ q, Runs (fun _ _ _ => True) (p i) (own i c'.state) q ∧
          (c'.pool i = q ∨ c'.pool i = .spin) := by
    intro c c' hreach hc
    induction hreach with
    | refl => exact hc
    | @tail d e _ hstep ih =>
      obtain ⟨q, hq, hpool⟩ := ih
      cases hstep with
      | @call j op k r s' hcall _ hexec =>
        obtain ⟨-, rfl⟩ := hexec
        by_cases hj : j = i
        · subst hj
          have hq' : q = .call op k := by
            rcases hpool with hpool | hpool
            · exact hpool.symm.trans hcall
            · rw [hcall] at hpool
              cases hpool
          subst hq'
          refine ⟨k r, ?_, .inl (Function.update_self ..)⟩
          rw [own_same]
          exact hq.tail (Step.call (C := Guard.any) (M := logMachine fun _ _ _ => True) (i := ())
            (c := ⟨own j d.state, fun _ => Program.call op k⟩) (r := r) rfl trivial
            ⟨trivial, rfl⟩)
        · refine ⟨q, ?_, ?_⟩
          · rw [own_other hj]
            exact hq
          · simpa only [Function.update_of_ne (Ne.symm hj)] using hpool
      | env henv => exact henv.elim
      | @crash j s' hcrash =>
        obtain rfl := hcrash
        refine ⟨q, hq, ?_⟩
        by_cases hj : j = i
        · subst hj
          exact .inr (Function.update_self ..)
        · simpa only [Function.update_of_ne (Ne.symm hj)] using hpool
  exact hstep _ _ hrun ⟨p i, .refl, .inl rfl⟩

end own

end Interaction
