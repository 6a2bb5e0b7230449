import AfkCli.Interaction.Interleaving

/-!
# Logs

A program run alone, against an outside that may give any allowed answer, is described by its log:
the calls it made and the answers it got. What a program does is then a property of its logs, and
the rules of `Discipline.wp` need no assertion about interference.

## Main definitions

* `Log`: calls and their answers, the newest first
* `logMachine`: the machine that records what a program does
* `Runs`: the runs of one program
* `Allowed`: every answer of the log is one the outside may give
* `keeping`: the discipline under which every log of a program has a property
* `halting`: the discipline under which a program's results have a property
* `play`: the run of a program against given answers

## Main results

* `wp_record`, `wp_answer`: the rules for a call
* `wp_grows`: a log grows only by the calls of its program
* `wp_strengthen`: a part of a program that keeps a stronger property
* `log_sound`: a program that keeps a property keeps it in every log of its runs
* `halting_sound`: what a program returns, and where it goes on for ever
* `runs_play`, `runs_of_run`: what is played is a run
-/

namespace Interaction

open Relation Discipline

variable {Op : Type} {Ans : Op → Type} {β : Type}

/-- A call and its answer. -/
structure Event (Op : Type) (Ans : Op → Type) where
  op : Op
  answer : Ans op

/-- What happened, the newest event first. -/
abbrev Log (Op : Type) (Ans : Op → Type) := List (Event Op Ans)

/-- The answers an outside may give after a log. -/
abbrev Answers (Op : Type) (Ans : Op → Type) := Log Op Ans → (op : Op) → Ans op → Prop

/-- The machine that records the calls of one program. -/
def logMachine (A : Answers Op Ans) : Machine Unit Op Ans (Log Op Ans) where
  exec _ op log r log' := A log op r ∧ log' = ⟨op, r⟩ :: log
  env _ _ := False
  crash _ _ _ := False

/-- The program `p` has made the calls of the log, and goes on as `p'`. -/
def Runs (A : Answers Op Ans) (p : Program Op Ans β) (log : Log Op Ans) (p' : Program Op Ans β) :
    Prop :=
  Reaches (α := fun _ => β) (logMachine A) Guard.any ⟨[], fun _ => p⟩ ⟨log, fun _ => p'⟩

/-- Every answer of the log is one the outside may give. -/
def Allowed (A : Answers Op Ans) : Log Op Ans → Prop
  | [] => True
  | e :: log => A log e.op e.answer ∧ Allowed A log

instance decidableAllowed {A : Answers Op Ans} [∀ log op r, Decidable (A log op r)] :
    DecidablePred (Allowed A)
  | [] => isTrue trivial
  | e :: log =>
    have : Decidable (Allowed A log) := decidableAllowed log
    inferInstanceAs (Decidable (A log e.op e.answer ∧ Allowed A log))

theorem allowed_of_reaches {A : Answers Op Ans}
    {c c' : Config Unit Op Ans (fun _ => β) (Log Op Ans)}
    (h : Reaches (logMachine A) Guard.any c c') (hc : Allowed A c.state) : Allowed A c'.state := by
  induction h with
  | refl => exact hc
  | tail _ hstep ih =>
    cases hstep with
    | call _ _ hexec =>
      obtain ⟨hanswer, rfl⟩ := hexec
      exact ⟨hanswer, ih⟩
    | env henv => exact henv.elim
    | crash hcrash => exact hcrash.elim

theorem Runs.allowed {A : Answers Op Ans} {p p' : Program Op Ans β} {log : Log Op Ans}
    (h : Runs A p log p') : Allowed A log :=
  allowed_of_reaches h trivial

/-- An outside that may give more answers allows more runs. -/
theorem Runs.mono {A A' : Answers Op Ans} {p p' : Program Op Ans β} {log : Log Op Ans}
    (hA : ∀ log op r, A log op r → A' log op r) (h : Runs A p log p') : Runs A' p log p' := by
  refine ReflTransGen.mono ?_ _ _ h
  intro c c' hstep
  cases hstep with
  | call hpool hguard hexec => exact .call hpool hguard ⟨hA _ _ _ hexec.1, hexec.2⟩
  | env henv => exact henv.elim
  | crash hcrash => exact hcrash.elim

/-- A run goes on with an allowed answer. -/
theorem Runs.call {A : Answers Op Ans} {p : Program Op Ans β} {log : Log Op Ans} {op : Op}
    {k : Ans op → Program Op Ans β} (h : Runs A p log (.call op k)) (r : Ans op)
    (hr : A log op r) : Runs A p (⟨op, r⟩ :: log) (k r) :=
  h.tail (Step.call (C := Guard.any) (M := logMachine A) (i := ())
    (c := ⟨log, fun _ => Program.call op k⟩) (r := r) rfl trivial ⟨hr, rfl⟩)

/-- The discipline under which every log has the property `Good`. -/
def keeping (A : Answers Op Ans) (Good : Log Op Ans → Prop) : Discipline (logMachine A) where
  inv := Good
  guard := Guard.any
  guar _ op log := ∀ r, A log op r → Good (⟨op, r⟩ :: log)
  inv_exec := by
    rintro i op s r s' n - - - hguar ⟨hr, rfl⟩
    exact hguar r hr
  inv_env _ henv := henv.elim
  inv_crash _ hcrash := hcrash.elim

variable {A : Answers Op Ans} {Good : Log Op Ans → Prop} {log : Log Op Ans}

/-- A program that runs alone is not interfered with. -/
theorem keeping_stable {i : Unit} {mine : Option Op} {P : Log Op Ans → Prop} :
    (keeping A Good).Stable i mine P := by
  rintro s s' ⟨-, -, ⟨j, op, r, n, hj, -⟩ | henv | ⟨j, hj, -⟩⟩ -
  · exact absurd rfl hj
  · exact henv.elim
  · exact absurd rfl hj

/-- The rule for a call: every allowed answer keeps the property, and the program goes on. -/
theorem wp_record {op : Op} {k : Ans op → Program Op Ans β} {Q : β → Log Op Ans → Prop}
    (h : ∀ r, A log op r → Good (⟨op, r⟩ :: log) ∧
      (keeping A Good).wp () (k r) Q (⟨op, r⟩ :: log)) :
    (keeping A Good).wp () (.call op k) Q log := by
  refine wp_call (· = log) rfl keeping_stable ?_
  rintro s n rfl - - -
  refine ⟨fun r hr => (h r hr).1, ?_⟩
  rintro r s' ⟨hr, rfl⟩
  exact (h r hr).2

/-- The rule for a single call that keeps the property. -/
theorem wp_recorded {op : Op} {Q : Ans op → Log Op Ans → Prop}
    (h : ∀ r, A log op r → Good (⟨op, r⟩ :: log) ∧ Q r (⟨op, r⟩ :: log)) :
    (keeping A Good).wp () (Program.perform op) Q log :=
  wp_record h

/-- A program that makes only calls whose events keep an assertion keeps it. -/
theorem wp_quiet {ops : Op → Prop} {q : β → Prop} {p : Program Op Ans β}
    {P : Log Op Ans → Prop} (hp : p.Within (fun _ _ => True) ops q)
    (hops : ∀ op r log, ops op → P log → Good (⟨op, r⟩ :: log) ∧ P (⟨op, r⟩ :: log))
    (hlog : P log) : (keeping A Good).wp () p (fun a log' => q a ∧ P log') log := by
  refine wp_of_within hp (fun _ _ => keeping_stable) ?_ (fun _ _ => trivial) hlog
  intro op s n hop hs _ _ _
  refine ⟨fun r _ => (hops op r s hop hs).1, ?_⟩
  rintro r s' ⟨-, rfl⟩
  exact ⟨trivial, (hops op r s hop hs).2⟩

/-- Any program may run. -/
theorem wp_anything (p : Program Op Ans β) :
    (keeping A fun _ => True).wp () p (fun _ _ => True) log :=
  wp_mono (fun _ _ _ => trivial)
    (wp_quiet (P := fun _ => True) p.within_true (fun _ _ _ _ _ => ⟨trivial, trivial⟩) trivial)

/-- The log has grown by calls in `ops`. -/
def GrewBy (ops : Op → Prop) (log log' : Log Op Ans) : Prop :=
  ∃ new, log' = new ++ log ∧ ∀ e ∈ new, ops e.op

theorem GrewBy.refl {ops : Op → Prop} (log : Log Op Ans) : GrewBy ops log log :=
  ⟨[], rfl, fun _ he => absurd he List.not_mem_nil⟩

theorem GrewBy.trans {ops : Op → Prop} {log log' log'' : Log Op Ans} (h : GrewBy ops log log')
    (h' : GrewBy ops log' log'') : GrewBy ops log log'' := by
  obtain ⟨new, rfl, hnew⟩ := h
  obtain ⟨new', rfl, hnew'⟩ := h'
  refine ⟨new' ++ new, (List.append_assoc _ _ _).symm, fun e he => ?_⟩
  obtain he | he := List.mem_append.mp he
  · exact hnew' e he
  · exact hnew e he

/-- The log of a program grows only by the calls the program can make. -/
theorem wp_grows {ops : Op → Prop} {q : β → Prop} {p : Program Op Ans β}
    {Q : β → Log Op Ans → Prop} (hp : p.Within (fun _ _ => True) ops q)
    (h : (keeping A Good).wp () p Q log) :
    (keeping A Good).wp () p (fun a log' => Q a log' ∧ GrewBy ops log log') log := by
  induction p generalizing log with
  | ret a => exact ⟨h, .refl log⟩
  | spin => exact h
  | call op k ih =>
    intro log' n hstar hinv hn hguard
    obtain rfl : log' = log := keeping_stable.star (P := (· = log)) hstar rfl
    refine ⟨(h log' n hstar hinv hn hguard).1, ?_⟩
    rintro r log'' ⟨hr, rfl⟩
    have hk := (h log' n hstar hinv hn hguard).2 r _ ⟨hr, rfl⟩
    refine wp_mono (fun a log'' hlog => ⟨hlog.1, ?_⟩) (ih r (hp.2 r trivial) hk)
    refine GrewBy.trans ⟨[⟨op, r⟩], rfl, fun e he => ?_⟩ hlog.2
    rw [List.mem_singleton.mp he]
    exact hp.1

/-- What happened before a program stays in the log. -/
theorem wp_extends {p : Program Op Ans β} {Q : β → Log Op Ans → Prop}
    (h : (keeping A Good).wp () p Q log) :
    (keeping A Good).wp () p (fun a log' => Q a log' ∧ log <:+ log') log := by
  refine wp_mono (fun a log' hgrew => ⟨hgrew.1, ?_⟩) (wp_grows (Program.within_true p) h)
  obtain ⟨new, rfl, -⟩ := hgrew.2
  exact List.suffix_append new log

/-- What a program returns along certain answers, it returns when its log has only such answers. -/
theorem wp_answers {B : (op : Op) → Ans op → Prop} {ops : Op → Prop} {q : β → Prop}
    {p : Program Op Ans β} {Q : β → Log Op Ans → Prop} (hp : p.Within B ops q)
    (h : (keeping A Good).wp () p Q log) :
    (keeping A Good).wp () p (fun a log' => Q a log' ∧ ((∀ e ∈ log', B e.op e.answer) → q a))
      log := by
  induction p generalizing log with
  | ret a => exact ⟨h, fun _ => hp⟩
  | spin => exact h
  | call op k ih =>
    intro log' n hstar hinv hn hguard
    obtain rfl : log' = log := keeping_stable.star (P := (· = log)) hstar rfl
    refine ⟨(h log' n hstar hinv hn hguard).1, ?_⟩
    rintro r log'' ⟨hr, rfl⟩
    have hk := (h log' n hstar hinv hn hguard).2 r _ ⟨hr, rfl⟩
    by_cases hB : B op r
    · exact ih r (hp.2 r hB) hk
    · -- the answer stays in the log
      refine wp_mono (fun a log₁ hlog => ⟨hlog.1, fun hall => ?_⟩) (wp_extends hk)
      exact absurd (hall _ (hlog.2.subset List.mem_cons_self)) hB

/-- A part of a program may keep a stronger property, from where it holds. -/
theorem wp_strengthen {Good' : Log Op Ans → Prop} {p : Program Op Ans β}
    {Q : β → Log Op Ans → Prop} (hgood : ∀ log, Good' log → Good log) (hlog : Good' log)
    (h : (keeping A Good').wp () p Q log) :
    (keeping A Good).wp () p (fun a log' => Q a log' ∧ Good' log') log := by
  induction p generalizing log with
  | ret a => exact ⟨h, hlog⟩
  | spin => exact h
  | call op k ih =>
    refine wp_record fun r hr => ?_
    obtain ⟨hguar, hk⟩ := h log (fun _ => some op) .refl hlog rfl trivial
    exact ⟨hgood _ (hguar r hr), ih r (hguar r hr) (hk r _ ⟨hr, rfl⟩)⟩

/-- A program that keeps a property has it when it returns. -/
theorem wp_keeps {p : Program Op Ans β} {Q : β → Log Op Ans → Prop} (hlog : Good log)
    (h : (keeping A Good).wp () p Q log) :
    (keeping A Good).wp () p (fun a log' => Q a log' ∧ Good log') log :=
  wp_strengthen (fun _ => id) hlog h

/-- **Soundness**: a program that keeps a property has it in every log of its runs, and has its
postcondition when it returns. -/
theorem log_sound {p p' : Program Op Ans β} {Q : β → Log Op Ans → Prop} (hgood : Good [])
    (hp : (keeping A Good).wp () p Q []) (h : Runs A p log p') :
    Good log ∧ ∀ a, p' = .ret a → Q a log := by
  obtain ⟨hinv, hpool⟩ := sound (D := keeping A Good) (Q := fun _ => Q)
    (c := ⟨[], fun _ => p⟩) (fun _ _ => keeping_stable) hgood (fun _ => hp) h
  refine ⟨hinv, ?_⟩
  rintro a rfl
  exact hpool ()

/-! ## Results -/

section halting

variable {Stuck : Log Op Ans → Prop}

/-- The discipline of programs whose results matter, and where they may go on for ever. -/
def halting (A : Answers Op Ans) (Stuck : Log Op Ans → Prop) : Discipline (logMachine A) where
  inv _ := True
  guard := Guard.any
  guar _ _ _ := True
  spin _ := Stuck
  inv_exec := fun _ _ _ _ _ => trivial
  inv_env _ _ := trivial
  inv_crash _ _ := trivial
  spin_exec _ hother := absurd rfl hother
  spin_env _ henv := henv.elim
  spin_crash _ hcrash := hcrash.elim

theorem halting_stable {i : Unit} {mine : Option Op} {P : Log Op Ans → Prop} :
    (halting A Stuck).Stable i mine P := by
  rintro s s' ⟨-, -, ⟨j, op, r, n, hj, -⟩ | henv | ⟨j, hj, -⟩⟩ -
  · exact absurd rfl hj
  · exact henv.elim
  · exact absurd rfl hj

/-- The rule for a call: the program goes on with every allowed answer. -/
theorem wp_answer {op : Op} {k : Ans op → Program Op Ans β} {Q : β → Log Op Ans → Prop}
    (h : ∀ r, A log op r → (halting A Stuck).wp () (k r) Q (⟨op, r⟩ :: log)) :
    (halting A Stuck).wp () (.call op k) Q log := by
  refine wp_call (· = log) rfl halting_stable ?_
  rintro s n rfl - - -
  refine ⟨trivial, ?_⟩
  rintro r s' ⟨hr, rfl⟩
  exact h r hr

/-- The rule for a single call. -/
theorem wp_performed {op : Op} {Q : Ans op → Log Op Ans → Prop}
    (h : ∀ r, A log op r → Q r (⟨op, r⟩ :: log)) :
    (halting A Stuck).wp () (Program.perform op) Q log :=
  wp_answer h

/-- What a program returns, and where it goes on for ever. -/
theorem halting_sound {p p' : Program Op Ans β} {Q : β → Log Op Ans → Prop}
    (hp : (halting A Stuck).wp () p Q []) (h : Runs A p log p') :
    (∀ a, p' = .ret a → Q a log) ∧ (p' = .spin → Stuck log) := by
  obtain ⟨-, hpool⟩ := sound (D := halting A Stuck) (Q := fun _ => Q)
    (c := ⟨[], fun _ => p⟩) (fun _ _ => halting_stable) trivial (fun _ => hp) h
  refine ⟨?_, ?_⟩
  · rintro a rfl
    exact hpool ()
  · rintro rfl
    exact hpool ()

end halting

/-! ## Playing a program -/

section play

variable {E : Type}

/-- Play a program against an outside with a state of its own, for a number of calls. -/
def play (o : E → (op : Op) → Ans op × E) :
    Nat → E → Log Op Ans → Program Op Ans β → Log Op Ans × Program Op Ans β
  | n + 1, s, log, .call op k =>
    play o n (o s op).2 (⟨op, (o s op).1⟩ :: log) (k (o s op).1)
  | _, _, log, p => (log, p)

variable {o : E → (op : Op) → Ans op × E} {n : Nat} {s : E} {p q : Program Op Ans β}

theorem allowed_of_play {log : Log Op Ans} {n : Nat} {s : E} {q : Program Op Ans β}
    (h : Allowed A (play o n s log q).1) : Allowed A log := by
  induction n generalizing s log q with
  | zero => exact h
  | succ n ih =>
    cases q with
    | ret a => exact h
    | spin => exact h
    | call op k => exact (ih h).2

theorem runs_play_from (hrun : Runs A p log q) (hallowed : Allowed A (play o n s log q).1) :
    Runs A p (play o n s log q).1 (play o n s log q).2 := by
  induction n generalizing s log q with
  | zero => exact hrun
  | succ n ih =>
    cases q with
    | ret a => exact hrun
    | spin => exact hrun
    | call op k =>
      refine ih ?_ hallowed
      have hanswer : Allowed A (⟨op, (o s op).1⟩ :: log) := allowed_of_play hallowed
      exact hrun.call (o s op).1 hanswer.1

/-- **What is played is a run**, when every answer is one the outside may give. -/
theorem runs_play (hallowed : Allowed A (play o n s [] p).1) :
    Runs A p (play o n s [] p).1 (play o n s [] p).2 :=
  runs_play_from .refl hallowed

/-- A program that comes to a result against a deterministic outside has such a run, when the answers
are ones the outside may give. -/
theorem runs_of_run {I : E → Log Op Ans → Prop}
    (hI : ∀ s log op, I s log → A log op (o s op).1 ∧ I (o s op).2 (⟨op, (o s op).1⟩ :: log))
    {a : β} {s' : E} (hlog : I s log) (hbefore : Runs A p log q)
    (hrun : q.run o s = some (a, s')) : ∃ log', Runs A p log' (.ret a) ∧ I s' log' := by
  induction q generalizing s log with
  | ret b =>
    obtain ⟨rfl, rfl⟩ := Prod.mk.inj (Option.some.inj hrun)
    exact ⟨log, hbefore, hlog⟩
  | spin => cases hrun
  | call op k ih =>
    obtain ⟨hanswer, hnext⟩ := hI s log op hlog
    exact ih _ hnext (hbefore.call _ hanswer) hrun

end play

end Interaction
