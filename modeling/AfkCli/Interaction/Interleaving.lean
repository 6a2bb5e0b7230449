import AfkCli.Interaction.Program

/-!
# Interleaved programs

Processes run one program each against a shared state, one call at a time and in any order. The
environment may change the state between calls, and a process may be killed. A guard restricts the
calls a run may contain: it reads the state and the calls every process is about to make.

Reasoning is by rely and guarantee. A discipline fixes an invariant of the state, the guard, and
what a process guarantees of the state when it makes a call. `wp` is the weakest precondition of
one program under the interference that the discipline leaves to the others, and `sound` puts the
processes together.

## Main definitions

* `Machine`: what a call does to the state, and what the environment does
* `Config`, `Step`, `Reaches`: the runs of a family of programs
* `Discipline`, `Rely`, `wp`: rely-guarantee reasoning about one process

## Main results

* `wp_call`, `wp_bind`, `wp_mono`: the rules of the weakest precondition
* `sound`: processes that keep to a discipline keep to it along every run
-/

namespace Interaction

open Relation

variable {ι Op S : Type} {Ans : Op → Type} {α : ι → Type} {β γ : Type}

/-- What calls, the environment and a kill do to the state. -/
structure Machine (ι Op : Type) (Ans : Op → Type) (S : Type) where
  /-- Process `i` makes a call in the state `s`, gets the answer `r` and leaves the state `s'`. -/
  exec : (i : ι) → (op : Op) → (s : S) → (r : Ans op) → (s' : S) → Prop
  /-- A step of the environment. -/
  env : S → S → Prop
  /-- Process `i` is killed. -/
  crash : ι → S → S → Prop

/-- The shared state, and what is left of every program. -/
structure Config (ι Op : Type) (Ans : Op → Type) (α : ι → Type) (S : Type) where
  state : S
  pool : (i : ι) → Program Op Ans (α i)

/-- The calls the processes are about to make. -/
def Config.nexts (c : Config ι Op Ans α S) (i : ι) : Option Op := (c.pool i).next

/-- A restriction of the calls a run may contain. -/
abbrev Guard (ι Op S : Type) := ι → Op → S → (ι → Option Op) → Prop

/-- Every call is allowed. -/
def Guard.any : Guard ι Op S := fun _ _ _ _ => True

section runs

variable [DecidableEq ι]

/-- One step: a call allowed by the guard, a step of the environment, or a kill. -/
inductive Step (M : Machine ι Op Ans S) (C : Guard ι Op S) :
    Config ι Op Ans α S → Config ι Op Ans α S → Prop
  | call {c : Config ι Op Ans α S} {i : ι} {op : Op} {k : Ans op → Program Op Ans (α i)}
      {r : Ans op} {s' : S} (hpool : c.pool i = .call op k) (hguard : C i op c.state c.nexts)
      (hexec : M.exec i op c.state r s') : Step M C c ⟨s', Function.update c.pool i (k r)⟩
  | env {c : Config ι Op Ans α S} {s' : S} (henv : M.env c.state s') : Step M C c ⟨s', c.pool⟩
  | crash {c : Config ι Op Ans α S} {i : ι} {s' : S} (hcrash : M.crash i c.state s') :
      Step M C c ⟨s', Function.update c.pool i .spin⟩

/-- The configurations a run can reach. -/
def Reaches (M : Machine ι Op Ans S) (C : Guard ι Op S) :
    Config ι Op Ans α S → Config ι Op Ans α S → Prop :=
  ReflTransGen (Step M C)

theorem Step.mono {M : Machine ι Op Ans S} {C C' : Guard ι Op S}
    (hC : ∀ i op s n, C i op s n → C' i op s n) {c c' : Config ι Op Ans α S}
    (h : Step M C c c') : Step M C' c c' := by
  cases h with
  | call hpool hguard hexec => exact .call hpool (hC _ _ _ _ hguard) hexec
  | env henv => exact .env henv
  | crash hcrash => exact .crash hcrash

end runs

/-! ## Rely and guarantee -/

/-- What the processes of a machine agree on: an invariant of the state, the guard of the runs,
what a process guarantees of the state in which it makes a call, and when a process may be in a
loop that goes on, or dead. -/
structure Discipline (M : Machine ι Op Ans S) where
  inv : S → Prop
  guard : Guard ι Op S
  guar : ι → Op → S → Prop
  spin : ι → S → Prop := fun _ _ => True
  inv_exec : ∀ {i op s r s' n}, inv s → n i = some op → guard i op s n → guar i op s →
    M.exec i op s r s' → inv s'
  inv_env : ∀ {s s'}, inv s → M.env s s' → inv s'
  inv_crash : ∀ {i s s'}, inv s → M.crash i s s' → inv s'
  spin_exec : ∀ {i j op s r s'}, inv s → j ≠ i → spin i s → M.exec j op s r s' → spin i s' := by
    intros; trivial
  spin_env : ∀ {i s s'}, spin i s → M.env s s' → spin i s' := by intros; trivial
  spin_crash : ∀ {i j s s'}, i = j ∨ spin i s → M.crash j s s' → spin i s' := by intros; trivial

variable {M : Machine ι Op Ans S}

namespace Discipline

variable (D : Discipline M)

/-- The steps of the others while process `i` is about to make the call `mine`. -/
def Rely (i : ι) (mine : Option Op) (s s' : S) : Prop :=
  D.inv s ∧ D.inv s' ∧
    ((∃ j op r n, j ≠ i ∧ n i = mine ∧ n j = some op ∧ D.guard j op s n ∧ D.guar j op s ∧
        M.exec j op s r s') ∨
      M.env s s' ∨ ∃ j, j ≠ i ∧ M.crash j s s')

/-- An assertion the others cannot break while process `i` is about to make the call `mine`. -/
def Stable (i : ι) (mine : Option Op) (P : S → Prop) : Prop :=
  ∀ s s', D.Rely i mine s s' → P s → P s'

variable {D}

theorem Stable.and {i : ι} {mine : Option Op} {P Q : S → Prop} (hP : D.Stable i mine P)
    (hQ : D.Stable i mine Q) : D.Stable i mine fun s => P s ∧ Q s :=
  fun s s' h hs => ⟨hP s s' h hs.1, hQ s s' h hs.2⟩

theorem Stable.star {i : ι} {mine : Option Op} {P : S → Prop} (hP : D.Stable i mine P) {s s' : S}
    (h : ReflTransGen (D.Rely i mine) s s') (hs : P s) : P s' := by
  induction h with
  | refl => exact hs
  | tail _ hstep ih => exact hP _ _ hstep ih

variable (D)

/-- The weakest precondition of a program of process `i`: whatever the others do before each of
its calls, it makes the call with its guarantee, it returns only with `Q`, and it goes on for ever
only where it may. -/
def wp (i : ι) : Program Op Ans β → (β → S → Prop) → S → Prop
  | .ret a, Q, s => Q a s
  | .spin, _, s => D.spin i s
  | .call op k, Q, s => ∀ s' n, ReflTransGen (D.Rely i (some op)) s s' → D.inv s' →
      n i = some op → D.guard i op s' n →
        D.guar i op s' ∧ ∀ r s'', M.exec i op s' r s'' → wp i (k r) Q s''

variable {D} {i : ι}

@[simp] theorem wp_ret {a : β} {Q : β → S → Prop} {s : S} : D.wp i (.ret a) Q s ↔ Q a s := Iff.rfl

@[simp] theorem wp_spin {Q : β → S → Prop} {s : S} :
    D.wp i (.spin : Program Op Ans β) Q s ↔ D.spin i s := Iff.rfl

/-- The rule for a call, with an assertion `P` that holds until the call is made. -/
theorem wp_call {op : Op} {k : Ans op → Program Op Ans β} {Q : β → S → Prop} {s : S}
    (P : S → Prop) (hP : P s) (hstable : D.Stable i (some op) P)
    (h : ∀ s' n, P s' → D.inv s' → n i = some op → D.guard i op s' n →
      D.guar i op s' ∧ ∀ r s'', M.exec i op s' r s'' → D.wp i (k r) Q s'') :
    D.wp i (.call op k) Q s :=
  fun s' n hstar hinv hn hg => h s' n (hstable.star hstar hP) hinv hn hg

theorem wp_mono {p : Program Op Ans β} {Q Q' : β → S → Prop} {s : S}
    (hQ : ∀ a s, Q a s → Q' a s) (h : D.wp i p Q s) : D.wp i p Q' s := by
  induction p generalizing s with
  | ret a => exact hQ a s h
  | call op k ih =>
    intro s' n hstar hinv hn hg
    exact ⟨(h s' n hstar hinv hn hg).1,
      fun r s'' he => ih r ((h s' n hstar hinv hn hg).2 r s'' he)⟩
  | spin => exact h

/-- Two postconditions of one program. -/
theorem wp_and {p : Program Op Ans β} {Q Q' : β → S → Prop} {s : S} (h : D.wp i p Q s)
    (h' : D.wp i p Q' s) : D.wp i p (fun a s' => Q a s' ∧ Q' a s') s := by
  induction p generalizing s with
  | ret a => exact ⟨h, h'⟩
  | call op k ih =>
    intro s' n hstar hinv hn hg
    refine ⟨(h s' n hstar hinv hn hg).1, fun r s'' he => ?_⟩
    exact ih r ((h s' n hstar hinv hn hg).2 r s'' he) ((h' s' n hstar hinv hn hg).2 r s'' he)
  | spin => exact h

theorem wp_bind {p : Program Op Ans β} {f : β → Program Op Ans γ} {Q : γ → S → Prop} {s : S} :
    D.wp i (p.bind f) Q s ↔ D.wp i p (fun a s' => D.wp i (f a) Q s') s := by
  induction p generalizing s with
  | ret a => rfl
  | call op k ih => simp only [Program.call_bind, wp, ih]
  | spin => exact Iff.rfl

/-- The weakest precondition of a program about to make a call survives the others' steps. -/
theorem wp_rely {p : Program Op Ans β} {Q : β → S → Prop} {s s' : S}
    (hQ : ∀ a, D.Stable i none (Q a)) (hR : D.Rely i p.next s s') (h : D.wp i p Q s) :
    D.wp i p Q s' := by
  cases p with
  | ret a => exact hQ a s s' hR h
  | call op k => exact fun t n hstar => h t n (.head hR hstar)
  | spin =>
    obtain ⟨hinv, -, ⟨j, op, r, n, hj, -, -, -, -, he⟩ | henv | ⟨j, -, hcrash⟩⟩ := hR
    · exact D.spin_exec hinv hj h he
    · exact D.spin_env h henv
    · exact D.spin_crash (.inr h) hcrash

/-- Calls without an obligation that keep an assertion: a program making only such calls keeps
it. -/
theorem wp_of_within {A : (op : Op) → Ans op → Prop} {ops : Op → Prop} {q : β → Prop}
    {p : Program Op Ans β} {P : S → Prop} (hp : p.Within A ops q)
    (hstable : ∀ op, ops op → D.Stable i (some op) P)
    (hops : ∀ op s n, ops op → P s → D.inv s → n i = some op → D.guard i op s n →
      D.guar i op s ∧ ∀ r s', M.exec i op s r s' → A op r ∧ P s')
    (hspin : ∀ s, P s → D.spin i s) {s : S} (hs : P s) :
    D.wp i p (fun a s' => q a ∧ P s') s := by
  induction p generalizing s with
  | ret a => exact ⟨hp, hs⟩
  | call op k ih =>
    refine wp_call P hs (hstable op hp.1) fun s' n hP hinv hn hg => ?_
    obtain ⟨hguar, hk⟩ := hops op s' n hp.1 hP hinv hn hg
    exact ⟨hguar, fun r s'' he => ih r (hp.2 r (hk r s'' he).1) (hk r s'' he).2⟩
  | spin => exact hspin s hs

section sound

variable [DecidableEq ι]

/-- **Soundness**: if every process keeps to the discipline from the initial state on, then every
process keeps to it in every configuration a run reaches. -/
theorem sound {c c' : Config ι Op Ans α S} {Q : (i : ι) → α i → S → Prop}
    (hQ : ∀ i a, D.Stable i none (Q i a)) (hinv : D.inv c.state)
    (hpool : ∀ i, D.wp i (c.pool i) (Q i) c.state) (h : Reaches M D.guard c c') :
    D.inv c'.state ∧ ∀ i, D.wp i (c'.pool i) (Q i) c'.state := by
  induction h with
  | refl => exact ⟨hinv, hpool⟩
  | @tail d e _ hstep ih =>
    obtain ⟨hinv, hpool⟩ := ih
    cases hstep with
    | @call i op k r s' hcall hguard hexec =>
      have hwp := hpool i
      rw [hcall] at hwp
      have hn : d.nexts i = some op := by simp [Config.nexts, hcall]
      obtain ⟨hguar, hk⟩ := hwp d.state d.nexts .refl hinv hn hguard
      have hinv' := D.inv_exec hinv hn hguard hguar hexec
      refine ⟨hinv', fun j => ?_⟩
      by_cases hj : j = i
      · subst hj
        simpa only [Function.update_self] using hk r s' hexec
      · simp only [Function.update_of_ne hj]
        exact wp_rely (hQ j) ⟨hinv, hinv', .inl
          ⟨i, op, r, d.nexts, Ne.symm hj, rfl, hn, hguard, hguar, hexec⟩⟩ (hpool j)
    | @env s' henv =>
      refine ⟨D.inv_env hinv henv, fun j => ?_⟩
      exact wp_rely (hQ j) ⟨hinv, D.inv_env hinv henv, .inr (.inl henv)⟩ (hpool j)
    | @crash i s' hcrash =>
      refine ⟨D.inv_crash hinv hcrash, fun j => ?_⟩
      by_cases hj : j = i
      · subst hj
        simp only [Function.update_self, wp_spin]
        exact D.spin_crash (.inl rfl) hcrash
      · simp only [Function.update_of_ne hj]
        exact wp_rely (hQ j)
          ⟨hinv, D.inv_crash hinv hcrash, .inr (.inr ⟨i, Ne.symm hj, hcrash⟩)⟩ (hpool j)

end sound

/-- Along a run, a process makes an allowed call only with its guarantee. -/
theorem guar_of_wp {c : Config ι Op Ans α S} {Q : (i : ι) → α i → S → Prop}
    (hinv : D.inv c.state) (hpool : ∀ i, D.wp i (c.pool i) (Q i) c.state) {i : ι} {op : Op}
    (hn : c.nexts i = some op) (hguard : D.guard i op c.state c.nexts) : D.guar i op c.state := by
  cases hp : c.pool i with
  | call op' k =>
    have hwp := hpool i
    obtain rfl : op' = op := by simpa [Config.nexts, hp] using hn
    rw [hp] at hwp
    exact (hwp c.state c.nexts .refl hinv hn hguard).1
  | ret a => simp [Config.nexts, hp] at hn
  | spin => simp [Config.nexts, hp] at hn

end Discipline

end Interaction
