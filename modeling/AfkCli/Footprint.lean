import AfkCli.Trace

/-!
# Footprints

The calls a program can make, whatever it is answered: a footprint is a set of calls, and it
composes the way the source sequences operations that may fail.

## Main definitions

* `Only ops p`: the program `p` makes only calls in `ops`
* `Yields ops Q p`: the program `p` makes only calls in `ops`, and what it returns is in `Q`
* `Halts p`: the program `p` comes to a result, whatever it is answered
* `SameFile`: two states of a trace write to the same file

## Main results

* `Only.bind`, `Only.attempt`, `Only.ignore`, `Only.lift`: sequencing
* `Yields.bind`, `Yields.attempt_bind`, `Yields.lift_bind`: sequencing
* `Halts.bind`, `Halts.attempt`: sequencing
* `within_traceEvent`, `within_traceIoError`, `within_traceProcessExit`: a trace reads the clock and
  writes to its file
-/

namespace AfkCli

open Interaction

variable {α β : Type} {ops ops' : Call → Prop}

/-- The program makes only calls in `ops`. -/
def Calls (ops : Call → Prop) (p : Prog α) : Prop := p.Within (fun _ _ => True) ops fun _ => True

/-- The program that may fail makes only calls in `ops`. -/
def Only (ops : Call → Prop) (p : Io α) : Prop := Calls ops p.run

theorem Calls.ret (a : α) : Calls ops (.ret a) := trivial

theorem Calls.spin : Calls ops (.spin : Prog α) := trivial

theorem Calls.perform {op : Call} (h : ops op) : Calls ops (Program.perform op) :=
  ⟨h, fun _ _ => trivial⟩

/-- One program after another makes the calls of both. -/
theorem Calls.bind {p : Prog α} {f : α → Prog β} (hp : Calls ops p) (hf : ∀ a, Calls ops (f a)) :
    Calls ops (p.bind f) :=
  Program.Within.bind hp fun a _ => hf a

/-- A footprint may be made larger. -/
theorem Calls.mono {p : Prog α} (hp : Calls ops p) (h : ∀ op, ops op → ops' op) : Calls ops' p :=
  Program.Within.mono hp (fun _ _ _ => trivial) h fun _ _ => trivial

/-- The calls of a program of which more is known. -/
theorem Calls.of_within {p : Prog α} {q : α → Prop} (hp : p.Within (fun _ _ => True) ops q) :
    Calls ops p :=
  Program.Within.mono hp (fun _ _ => id) (fun _ => id) fun _ _ => trivial

namespace Only

theorem pure (a : α) : Only ops (Pure.pure a : Io α) := trivial

theorem throw (error : IoError) : Only ops (MonadExcept.throw error : Io α) := trivial

theorem ask {p : Prog (Except IoError α)} (h : Calls ops p) : Only ops (AfkCli.ask p) := h

/-- Where the first part fails, the second is not run. -/
theorem bind {p : Io α} {f : α → Io β} (hp : Only ops p) (hf : ∀ a, Only ops (f a)) :
    Only ops (p >>= f) := by
  rw [Only, run_bind]
  refine Calls.bind hp fun r => ?_
  cases r with
  | ok a => exact hf a
  | error error => trivial

/-- Catching an error makes no call. -/
theorem attempt {p : Io α} (hp : Only ops p) : Only ops (AfkCli.attempt p) :=
  Calls.bind hp fun _ => trivial

/-- Nor does ignoring one. -/
theorem ignore {p : Io α} (hp : Only ops p) : Only ops (AfkCli.ignore p) :=
  Calls.bind hp fun _ => trivial

/-- A program that cannot fail. -/
theorem lift {p : Prog α} (hp : Calls ops p) : Only ops (liftM p) :=
  Calls.bind hp fun _ => trivial

theorem mono {p : Io α} (hp : Only ops p) (h : ∀ op, ops op → ops' op) : Only ops' p :=
  Calls.mono hp h

end Only

/-- The program makes only calls in `ops`, and what it returns is in `Q`. -/
def Yields (ops : Call → Prop) (Q : α → Prop) (p : Io α) : Prop :=
  p.run.Within (fun _ _ => True) ops fun r => ∀ a, r = .ok a → Q a

namespace Yields

variable {P Q : α → Prop} {R : β → Prop}

theorem pure {a : α} (h : Q a) : Yields ops Q (Pure.pure a : Io α) := by
  rintro _ ⟨⟩
  exact h

theorem throw (error : IoError) : Yields ops Q (MonadExcept.throw error : Io α) := by
  rintro _ ⟨⟩

/-- Of a program whose calls are known, whatever it returns. -/
theorem of_only {p : Io α} (hp : Only ops p) (h : ∀ a, Q a) : Yields ops Q p :=
  Program.Within.mono hp (fun _ _ _ => trivial) (fun _ => id) fun _ _ a _ => h a

/-- Forgetting what is returned. -/
theorem only {p : Io α} (hp : Yields ops P p) : Only ops p := Calls.of_within hp

theorem mono {p : Io α} (hp : Yields ops P p) (h : ∀ a, P a → Q a) : Yields ops Q p :=
  Program.Within.mono hp (fun _ _ _ => trivial) (fun _ => id) fun _ hr a ha => h a (hr a ha)

/-- The second part may rely on what the first returns. -/
theorem bind {p : Io α} {f : α → Io β} (hp : Yields ops P p)
    (hf : ∀ a, P a → Yields ops R (f a)) : Yields ops R (p >>= f) := by
  rw [Yields, run_bind]
  refine Program.Within.bind hp fun r hr => ?_
  cases r with
  | ok a => exact hf a (hr a rfl)
  | error error => exact throw error

/-- The rest may rely on what was returned, and must deal with an error. -/
theorem attempt_bind {p : Io α} {f : Except IoError α → Io β} (hp : Yields ops P p)
    (hok : ∀ a, P a → Yields ops R (f (.ok a)))
    (herror : ∀ error, Yields ops R (f (.error error))) : Yields ops R (attempt p >>= f) := by
  rw [Yields, run_attempt_bind]
  refine Program.Within.bind hp fun r hr => ?_
  cases r with
  | ok a => exact hok a (hr a rfl)
  | error error => exact herror error

theorem lift {p : Prog α} (hp : p.Within (fun _ _ => True) ops P) :
    Yields ops P (liftM p : Io α) := by
  rw [Yields, run_lift]
  refine Program.Within.bind hp fun a ha => ?_
  rintro _ ⟨⟩
  exact ha

/-- After a program that cannot fail. -/
theorem lift_bind {p : Prog α} {f : α → Io β} (hp : p.Within (fun _ _ => True) ops P)
    (hf : ∀ a, P a → Yields ops R (f a)) : Yields ops R ((liftM p : Io α) >>= f) := by
  rw [Yields, run_lift_bind]
  exact Program.Within.bind hp hf

end Yields

/-- The program comes to a result, whatever it is answered. -/
def Halts (p : Io α) : Prop := p.run.Ends

namespace Halts

theorem pure (a : α) : Halts (Pure.pure a : Io α) := trivial

theorem throw (error : IoError) : Halts (MonadExcept.throw error : Io α) := trivial

theorem ask {p : Prog (Except IoError α)} (h : p.Ends) : Halts (AfkCli.ask p) := h

/-- Both parts come to a result. -/
theorem bind {p : Io α} {f : α → Io β} (hp : Halts p) (hf : ∀ a, Halts (f a)) :
    Halts (p >>= f) := by
  rw [Halts, run_bind]
  refine Program.Ends.bind hp fun r => ?_
  cases r with
  | ok a => exact hf a
  | error error => trivial

theorem attempt {p : Io α} (hp : Halts p) : Halts (AfkCli.attempt p) :=
  Program.Ends.bind hp fun _ => trivial

end Halts

/-! ## Traces -/

/-- The trace writes to the same file. -/
def SameFile (trace trace' : Option Trace) : Prop := trace'.map Trace.file = trace.map Trace.file

/-- The calls include those of the trace. -/
structure TakesTrace (ops : Call → Prop) (trace : Option Trace) : Prop where
  now : ops (.process (.now .traceWrite))
  write : ∀ t ∈ trace, ∀ bytes, ops (.file (.writeAll .traceWrite t.file bytes))

section traces

variable {self : Self}

/-- Writing a line reads the clock and writes to the file of the trace. -/
theorem within_traceWrite {trace : Trace} (h : TakesTrace ops (some trace)) (event : String)
    (detail : Bytes) :
    (trace.write self event detail).Within (fun _ _ => True) ops
      fun trace' => trace'.file = trace.file := by
  have hnow : (nowSeconds .traceWrite).run.Within (fun _ _ => True) ops fun _ => True :=
    ⟨h.now, fun _ _ => trivial⟩
  have hwrite : ∀ bytes, Program.Within (fun _ _ => True) ops (fun _ => True)
      (AfkCli.file (.writeAll .traceWrite trace.file bytes)) :=
    fun bytes => ⟨h.write trace rfl bytes, fun _ _ => trivial⟩
  have hret : ∀ trace', trace'.file = trace.file → Program.Within (fun _ _ => True) ops
      (fun trace' => trace'.file = trace.file) (Pure.pure trace' : Prog Trace) := fun _ => id
  unfold Trace.write
  split
  · exact hret trace rfl
  · refine hnow.bind fun timestamp _ => ?_
    dsimp only
    generalize Trace.line _ _ _ _ _ = line
    split
    · exact hret trace rfl
    · refine (hwrite _).bind fun r _ => ?_
      rcases r with error | _ <;> exact hret _ rfl

/-- A step of a trace that is there keeps its file. -/
theorem within_mapSome {p : Prog Trace} {trace : Trace}
    (hp : p.Within (fun _ _ => True) ops fun trace' => trace'.file = trace.file) :
    (some <$> p).Within (fun _ _ => True) ops (SameFile (some trace)) := by
  rw [map_eq_pure_bind]
  refine hp.bind fun trace' hfile => ?_
  show some trace'.file = some trace.file
  rw [hfile]

/-- Tracing an event, with or without a trace. -/
theorem within_traceEvent {trace : Option Trace} (h : TakesTrace ops trace) (event : String) :
    (traceEvent self trace event).Within (fun _ _ => True) ops (SameFile trace) := by
  cases trace with
  | none => exact rfl
  | some trace => exact within_mapSome (within_traceWrite h event [])

/-- Tracing an error. -/
theorem within_traceIoError {trace : Option Trace} (h : TakesTrace ops trace) (event : String)
    (error : IoError) :
    (traceIoError self trace event error).Within (fun _ _ => True) ops (SameFile trace) := by
  cases trace with
  | none => exact rfl
  | some trace =>
    refine within_mapSome ?_
    unfold Trace.ioError
    cases error.rawOsError <;> exact within_traceWrite h event _

/-- Tracing an exit. -/
theorem within_traceProcessExit {trace : Option Trace} (h : TakesTrace ops trace) (event : String)
    (exit : ProcessExit) :
    (traceProcessExit self trace event exit).Within (fun _ _ => True) ops (SameFile trace) := by
  cases trace with
  | none => exact rfl
  | some trace => cases exit <;> exact within_mapSome (within_traceWrite h event _)

end traces

end AfkCli
