import Mathlib.Tactic

/-!
# Programs over calls

A program makes calls one at a time and continues with the answer. It is the tree of its calls:
what a call does to the world, and which answers it may get, is left to the machine that runs the
program, so one program text can be run alone, with failing calls, killed half way, or interleaved
with other programs.

## Main definitions

* `Program Op Ans α`: programs making the calls `Op`, with answers `Ans`, and returning an `α`
* `Program.bind`: sequential composition
* `Program.next`: the call a program is about to make
* `Program.returned`: what a program has returned
* `Program.Within A ops Q`: along all answers satisfying `A`, the program makes only calls in
  `ops` and returns only results in `Q`
* `Program.run`: the result of a program against a deterministic outside
* `Program.Ends`: whatever it is answered, the program comes to a result
* `Program.widen`: a program among programs that make more calls

## Main results

* `Program.bind_assoc`, `Program.bind_ret`: the monad laws
* `Program.Within.bind`: `Within` composes
-/

namespace Interaction

/-- A program making the calls `Op`: it has returned, or it makes a call and continues with the
answer. `spin` is a loop whose bound was not reached: the program is still running. -/
inductive Program (Op : Type) (Ans : Op → Type) (α : Type)
  | ret (a : α)
  | call (op : Op) (k : Ans op → Program Op Ans α)
  | spin

namespace Program

variable {Op : Type} {Ans : Op → Type} {α β γ : Type}

/-- Run the first program, and continue with its result. -/
def bind : Program Op Ans α → (α → Program Op Ans β) → Program Op Ans β
  | ret a, f => f a
  | call op k, f => call op fun r => (k r).bind f
  | spin, _ => spin

@[simp] theorem ret_bind (a : α) (f : α → Program Op Ans β) : (ret a).bind f = f a := rfl

@[simp] theorem call_bind (op : Op) (k : Ans op → Program Op Ans α) (f : α → Program Op Ans β) :
    (call op k).bind f = call op fun r => (k r).bind f := rfl

@[simp] theorem spin_bind (f : α → Program Op Ans β) : (spin : Program Op Ans α).bind f = spin :=
  rfl

@[simp] theorem bind_ret (p : Program Op Ans α) : p.bind ret = p := by
  induction p with
  | ret a => rfl
  | call op k ih => simp only [call_bind, ih]
  | spin => rfl

theorem bind_assoc (p : Program Op Ans α) (f : α → Program Op Ans β) (g : β → Program Op Ans γ) :
    (p.bind f).bind g = p.bind fun a => (f a).bind g := by
  induction p with
  | ret a => rfl
  | call op k ih => simp only [call_bind, ih]
  | spin => rfl

instance : Monad (Program Op Ans) where
  pure := ret
  bind := bind

@[simp] theorem pure_eq (a : α) : (pure a : Program Op Ans α) = ret a := rfl

@[simp] theorem bind_eq (p : Program Op Ans α) (f : α → Program Op Ans β) :
    p >>= f = p.bind f := rfl

instance : LawfulMonad (Program Op Ans) :=
  .mk' _ bind_ret (fun _ _ => rfl) bind_assoc

/-- One call, returning its answer. -/
def perform (op : Op) : Program Op Ans (Ans op) := call op ret

@[simp] theorem perform_bind (op : Op) (f : Ans op → Program Op Ans β) :
    (perform op).bind f = call op f := rfl

/-- The call a program is about to make. -/
def next : Program Op Ans α → Option Op
  | call op _ => some op
  | _ => none

@[simp] theorem next_ret (a : α) : (ret a : Program Op Ans α).next = none := rfl

@[simp] theorem next_call (op : Op) (k : Ans op → Program Op Ans α) :
    (call op k).next = some op := rfl

@[simp] theorem next_spin : (spin : Program Op Ans α).next = none := rfl

/-- What a program has returned. -/
def returned : Program Op Ans α → Option α
  | ret a => some a
  | _ => none

theorem exists_of_returned {p : Program Op Ans α} {f : α → Bool} (h : p.returned.any f = true) :
    ∃ a, p = ret a ∧ f a = true := by
  cases p with
  | ret a => exact ⟨a, rfl, h⟩
  | call op k => cases h
  | spin => cases h

/-- The result of a program against a deterministic outside, and the outside after it; none when the
program is still running. -/
def run {S : Type} (outside : S → (op : Op) → Ans op × S) : Program Op Ans α → S → Option (α × S)
  | ret a, s => some (a, s)
  | call op k, s => run outside (k (outside s op).1) (outside s op).2
  | spin, _ => none

@[simp] theorem run_ret {S : Type} {outside : S → (op : Op) → Ans op × S} (a : α) (s : S) :
    (ret a : Program Op Ans α).run outside s = some (a, s) := rfl

@[simp] theorem run_spin {S : Type} {outside : S → (op : Op) → Ans op × S} (s : S) :
    (spin : Program Op Ans α).run outside s = none := rfl

theorem run_bind {S : Type} {outside : S → (op : Op) → Ans op × S} (p : Program Op Ans α)
    (f : α → Program Op Ans β) (s : S) :
    (p.bind f).run outside s = (p.run outside s).bind fun r => (f r.1).run outside r.2 := by
  induction p generalizing s with
  | ret a => rfl
  | call op k ih => exact ih _ _
  | spin => rfl

/-- Along all answers satisfying `A`, the program makes only calls in `ops`, and returns only
results in `Q`. -/
def Within (A : (op : Op) → Ans op → Prop) (ops : Op → Prop) (Q : α → Prop) :
    Program Op Ans α → Prop
  | ret a => Q a
  | call op k => ops op ∧ ∀ r, A op r → Within A ops Q (k r)
  | spin => True

section Within

variable {A : (op : Op) → Ans op → Prop} {ops : Op → Prop} {Q : α → Prop}

theorem Within.bind {p : Program Op Ans α} {f : α → Program Op Ans β} {R : β → Prop}
    (hp : p.Within A ops Q) (hf : ∀ a, Q a → (f a).Within A ops R) :
    (p.bind f).Within A ops R := by
  induction p with
  | ret a => exact hf a hp
  | call op k ih => exact ⟨hp.1, fun r hr => ih r (hp.2 r hr)⟩
  | spin => trivial

theorem Within.mono {p : Program Op Ans α} {A' : (op : Op) → Ans op → Prop} {ops' : Op → Prop}
    {Q' : α → Prop} (hp : p.Within A ops Q) (hA : ∀ op r, A' op r → A op r)
    (ho : ∀ op, ops op → ops' op) (hQ : ∀ a, Q a → Q' a) : p.Within A' ops' Q' := by
  induction p with
  | ret a => exact hQ a hp
  | call op k ih => exact ⟨ho op hp.1, fun r hr => ih r (hp.2 r (hA op r hr))⟩
  | spin => trivial

/-- Any program makes calls and returns results. -/
theorem within_true (p : Program Op Ans α) :
    p.Within (fun _ _ => True) (fun _ => True) fun _ => True := by
  induction p with
  | ret a => trivial
  | call op k ih => exact ⟨trivial, fun r _ => ih r⟩
  | spin => trivial

end Within

/-- Whatever it is answered, the program comes to a result. -/
def Ends : Program Op Ans α → Prop
  | ret _ => True
  | call _ k => ∀ r, Ends (k r)
  | spin => False

theorem ends_ret (a : α) : (ret a : Program Op Ans α).Ends := trivial

theorem ends_perform (op : Op) : (perform op : Program Op Ans (Ans op)).Ends := fun _ => trivial

theorem Ends.bind {p : Program Op Ans α} {f : α → Program Op Ans β} (hp : p.Ends)
    (hf : ∀ a, (f a).Ends) : (p.bind f).Ends := by
  induction p with
  | ret a => exact hf a
  | call op k ih => exact fun r => ih r (hp r)
  | spin => exact hp.elim

/-! ## More calls -/

section widen

variable {Op' : Type} {Ans' : Op' → Type}

/-- A program among programs that make other calls besides its own. -/
def widen : Program Op Ans α → Program (Op ⊕ Op') (Sum.elim Ans Ans') α
  | ret a => ret a
  | call op k => call (.inl op) fun r => (k r).widen
  | spin => spin

end widen

end Program

end Interaction
