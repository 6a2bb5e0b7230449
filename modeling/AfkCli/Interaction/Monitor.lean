import AfkCli.Interaction.Log

/-!
# Monitors

A monitor is what a program promises about the order of its calls: it follows the program's calls
and their answers through a state of its own, and in each state forbids some of them. A program
that follows a monitor makes no forbidden call, in any run, and what it has returned is related to
where the monitor is.

The answers that an outside may give are a condition on the monitor's state, so that what was
answered before can restrict what is answered next.

## Main definitions

* `Monitor`: a state, and what may happen in it
* `Monitor.after`: where the monitor is after a log; none, when something forbidden has happened
* `Monitor.Follows`: the program makes no forbidden call, and its results satisfy an assertion
* `Monitor.widen`: the same monitor for programs that make more calls

## Main results

* `Monitor.Follows.bind`, `Monitor.follows_of_within`: the rules for programs
* `Monitor.invariant`: induction along the logs that a monitor follows
* `Monitor.followed`, `Monitor.followed_always`: **soundness**, a program that follows a monitor does
  so along every run
-/

namespace Interaction

open Relation

variable {Op : Type} {Ans : Op → Type} {σ β γ : Type}

/-- What may happen in a state, and the state after it; `none` is forbidden. -/
structure Monitor (Op : Type) (Ans : Op → Type) (σ : Type) where
  start : σ
  next : σ → (op : Op) → Ans op → Option σ

namespace Monitor

/-- Where the monitor is after a log. -/
def after (M : Monitor Op Ans σ) : Log Op Ans → Option σ
  | [] => some M.start
  | e :: log => (M.after log).bind fun s => M.next s e.op e.answer

variable (M : Monitor Op Ans σ)

@[simp] theorem after_nil : M.after [] = some M.start := rfl

theorem after_cons {log : Log Op Ans} {op : Op} {r : Ans op} {s : σ}
    (h : M.after log = some s) : M.after (⟨op, r⟩ :: log) = M.next s op r := by
  simp only [after, h, Option.bind_some]

/-- What holds at the start and is kept by every step holds along every log that is followed. -/
theorem invariant {P : Log Op Ans → σ → Prop} (hstart : P [] M.start)
    (hstep : ∀ log s op r s', P log s → M.next s op r = some s' → P (⟨op, r⟩ :: log) s')
    {log : Log Op Ans} {s : σ} (h : M.after log = some s) : P log s := by
  induction log generalizing s with
  | nil =>
    obtain rfl := Option.some.inj h
    exact hstart
  | cons e log ih =>
    obtain ⟨before, hbefore, hnext⟩ := Option.bind_eq_some_iff.mp h
    exact hstep log before e.op e.answer s (ih hbefore) hnext

/-- The answers an outside may give, by the state of the monitor. -/
def answers (A : σ → (op : Op) → Ans op → Prop) : Answers Op Ans :=
  fun log op r => ∀ s ∈ M.after log, A s op r

instance {A : σ → (op : Op) → Ans op → Prop} [∀ s op r, Decidable (A s op r)]
    (log : Log Op Ans) (op : Op) (r : Ans op) : Decidable (M.answers A log op r) :=
  inferInstanceAs (Decidable (∀ s ∈ M.after log, A s op r))

/-- From the state `s`, the program makes no forbidden call, whatever it is answered, and what it
returns satisfies `Q`. -/
def Follows (M : Monitor Op Ans σ) (A : σ → (op : Op) → Ans op → Prop) :
    Program Op Ans β → (β → σ → Prop) → σ → Prop
  | .ret a, Q, s => Q a s
  | .call op k, Q, s => ∀ r, A s op r → ∃ s', M.next s op r = some s' ∧ M.Follows A (k r) Q s'
  | .spin, _, _ => True

variable {M} {A : σ → (op : Op) → Ans op → Prop} {p : Program Op Ans β} {Q Q' : β → σ → Prop}
  {s : σ}

theorem follows_ret {a : β} (h : Q a s) : M.Follows A (.ret a : Program Op Ans β) Q s := h

theorem follows_spin : M.Follows A (.spin : Program Op Ans β) Q s := trivial

/-- The rule for a single call. -/
theorem follows_perform {op : Op} {Q : Ans op → σ → Prop}
    (h : ∀ r, A s op r → ∃ s', M.next s op r = some s' ∧ Q r s') :
    M.Follows A (Program.perform op) Q s := h

theorem Follows.mono (h : M.Follows A p Q s) (hQ : ∀ a s', Q a s' → Q' a s') :
    M.Follows A p Q' s := by
  induction p generalizing s with
  | ret a => exact hQ a s h
  | spin => trivial
  | call op k ih =>
    intro r hr
    obtain ⟨s', hnext, hk⟩ := h r hr
    exact ⟨s', hnext, ih r hk⟩

/-- The rule of sequential composition. -/
theorem follows_bind {f : β → Program Op Ans γ} {R : γ → σ → Prop} :
    M.Follows A (p.bind f) R s ↔ M.Follows A p (fun a s' => M.Follows A (f a) R s') s := by
  induction p generalizing s with
  | ret a => exact Iff.rfl
  | spin => exact Iff.rfl
  | call op k ih =>
    constructor
    · intro h r hr
      obtain ⟨s', hnext, hk⟩ := h r hr
      exact ⟨s', hnext, (ih r).mp hk⟩
    · intro h r hr
      obtain ⟨s', hnext, hk⟩ := h r hr
      exact ⟨s', hnext, (ih r).mpr hk⟩

theorem Follows.bind {f : β → Program Op Ans γ} {R : γ → σ → Prop} (hp : M.Follows A p Q s)
    (hf : ∀ a s', Q a s' → M.Follows A (f a) R s') : M.Follows A (p.bind f) R s :=
  follows_bind.mpr (hp.mono hf)

/-- A program whose calls all keep an assertion keeps it. -/
theorem follows_of_within {ops : Op → Prop} {q : β → Prop} {P : σ → Prop}
    (hp : p.Within (fun _ _ => True) ops q)
    (hops : ∀ op r s, ops op → P s → A s op r → ∃ s', M.next s op r = some s' ∧ P s')
    (hs : P s) : M.Follows A p (fun a s' => q a ∧ P s') s := by
  induction p generalizing s with
  | ret a => exact ⟨hp, hs⟩
  | spin => trivial
  | call op k ih =>
    intro r hr
    obtain ⟨s', hnext, hs'⟩ := hops op r s hp.1 hs hr
    exact ⟨s', hnext, ih r (hp.2 r trivial) hs'⟩

/-- A monitor that takes no notice of other calls. -/
def widen {Op' : Type} {Ans' : Op' → Type} (M : Monitor Op Ans σ) :
    Monitor (Op ⊕ Op') (Sum.elim Ans Ans') σ where
  start := M.start
  next s op r :=
    match op, r with
    | .inl op, r => M.next s op r
    | .inr _, _ => some s

theorem Follows.widen {Op' : Type} {Ans' : Op' → Type}
    (h : M.Follows (fun _ _ _ => True) p Q s) :
    (M.widen : Monitor (Op ⊕ Op') (Sum.elim Ans Ans') σ).Follows (fun _ _ _ => True) p.widen Q s := by
  induction p generalizing s with
  | ret a => exact h
  | spin => trivial
  | call op k ih =>
    intro r _
    obtain ⟨s', hnext, hk⟩ := h r trivial
    exact ⟨s', hnext, ih r hk⟩

theorem followed_from {c c' : Config Unit Op Ans (fun _ => β) (Log Op Ans)}
    (h : Reaches (logMachine (M.answers A)) Guard.any c c')
    (hc : ∃ s, M.after c.state = some s ∧ M.Follows A (c.pool ()) Q s) :
    ∃ s, M.after c'.state = some s ∧ M.Follows A (c'.pool ()) Q s := by
  induction h with
  | refl => exact hc
  | tail _ hstep ih =>
    cases hstep with
    | call hpool _ hexec =>
      obtain ⟨hanswer, rfl⟩ := hexec
      obtain ⟨s, hs, hfollows⟩ := ih
      rw [show _ = _ from hpool] at hfollows
      obtain ⟨s', hnext, hk⟩ := hfollows _ (hanswer s hs)
      refine ⟨s', ?_, ?_⟩
      · rw [after_cons M hs, hnext]
      · simp only [Function.update_self]
        exact hk
    | env henv => exact henv.elim
    | crash hcrash => exact hcrash.elim

/-- **Soundness**: along every run of a program that follows the monitor nothing forbidden happens,
and what it has returned satisfies its assertion. -/
theorem followed {p' : Program Op Ans β} {log : Log Op Ans} (h : M.Follows A p Q M.start)
    (hrun : Runs (M.answers A) p log p') :
    ∃ s, M.after log = some s ∧ ∀ a, p' = .ret a → Q a s := by
  obtain ⟨s, hs, hfollows⟩ := followed_from (Q := Q) hrun ⟨M.start, rfl, h⟩
  refine ⟨s, hs, ?_⟩
  rintro a rfl
  exact hfollows

/-- Soundness, for an outside that may answer anything. -/
theorem followed_always {p' : Program Op Ans β} {log : Log Op Ans}
    (h : M.Follows (fun _ _ _ => True) p Q M.start) (hrun : Runs (fun _ _ _ => True) p log p') :
    ∃ s, M.after log = some s ∧ ∀ a, p' = .ret a → Q a s :=
  followed h (hrun.mono fun _ _ _ _ _ _ => trivial)

end Monitor

end Interaction
