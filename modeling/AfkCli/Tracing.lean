import AfkCli.Hoare
import AfkCli.Interaction.History
import AfkCli.LoopLog
import AfkCli.Trace

/-!
# Several processes trace one session

The runner creates the trace file of a session, and every attachment that is started with a trace
appends to the same file. A process checks the bound against its own count: the length it found
when it opened the file, and the lines it wrote since. The count is the length of the file as long
as nobody else appends, and no write of its own fails after a part of its line.

## Main definitions

* `Tracer`: a process that traces
* `traceLength`: the length of the trace file after a history
* `behind`: what was appended since a process looked at the file and is not in its count
* `tracing`: what the file system answers
* `Informed`: nobody appends behind another's back

## Main results

* `trace_bounded`: the file keeps its bound as long as nobody appends behind another's back
-/

namespace AfkCli

open Interaction Discipline

/-! ## Processes that trace -/

/-- A line of a trace, as the source's events, errors and metrics are written. -/
inductive TraceLine
  | event (event : String)
  | ioError (event : String) (error : IoError)
  | metric (event name : String) (value : Nat)

def TraceLine.write (self : Self) (trace : Trace) : TraceLine → Prog Trace
  | event name => trace.event self name
  | ioError name error => trace.ioError self name error
  | metric name field value => trace.metric self name field value

/-- A process with a trace: the runner creates the file, an attachment joins it, and each then
writes its lines. -/
structure Tracer where
  self : Self
  creates : Bool
  component : String
  lines : List TraceLine

def writeLines (self : Self) : List TraceLine → Trace → Prog Trace
  | [], trace => return trace
  | line :: lines, trace => do
    let trace ← line.write self trace
    writeLines self lines trace

/-- The tracer's calls on the trace file `name`. -/
def Tracer.program (tracer : Tracer) (name : Name) : Io Trace := do
  let trace ←
    (if tracer.creates then Trace.create tracer.self name tracer.component
    else Trace.openTrace tracer.self name tracer.component)
  writeLines tracer.self tracer.lines trace

/-! ## The file -/

section views

variable {ι : Type} [DecidableEq ι]

abbrev CallHistory (ι : Type) := History ι Call Call.Answer

/-- The line the event offered to the trace file. -/
def offeredBy : RunnerEvent → Bytes
  | ⟨.file (.writeAll site _ bytes), _⟩ => if site = .traceWrite then bytes else []
  | _ => []

/-- The bytes the event appended to the trace file: a line, or the part of it that a failed
`write_all` had written before it failed. -/
def appendedBy (part : Nat) (e : RunnerEvent) : Bytes :=
  match e with
  | ⟨.file (.writeAll ..), .ok _⟩ => offeredBy e
  | ⟨.file (.writeAll ..), .error _⟩ => (offeredBy e).take part
  | _ => []

/-- The line the event adds to the process's count. -/
def countedBy (e : RunnerEvent) : Bytes :=
  match e with
  | ⟨.file (.writeAll ..), .ok _⟩ => offeredBy e
  | _ => []

/-- The event created the trace file. -/
def Creates : RunnerEvent → Prop
  | ⟨.file (.createNew ..), .ok _⟩ => True
  | _ => False

/-- The process learned the length of the file: it looked, or it created the file. -/
def looks : RunnerEvent → Option Nat
  | ⟨.file (.lstat ..), .ok stat⟩ => some stat.len
  | ⟨.file (.createNew ..), .ok _⟩ => some 0
  | _ => none

/-- What the failed writes of a history leave, by the number of events before them. -/
abbrev Parts := Nat → Nat

/-- The length of the trace file. -/
def traceLength (parts : Parts) : CallHistory ι → Nat
  | [] => 0
  | (_, e) :: h => traceLength parts h + (appendedBy (parts h.length) e).length

/-- What was appended since the process looked at the file, and is not in its count: what others
wrote, and what its own failed writes left. -/
def behind (parts : Parts) (i : ι) : CallHistory ι → Nat
  | [] => 0
  | (j, e) :: h =>
    if j = i then
      if (looks e).isSome then 0
      else behind parts i h + ((appendedBy (parts h.length) e).length - (countedBy e).length)
    else behind parts i h + (appendedBy (parts h.length) e).length

/-- The count of a process: the length it learned, and the lines it has appended since. -/
def tally : RunnerLog → Option Nat
  | [] => none
  | e :: log => (looks e).or ((tally log).map (· + (countedBy e).length))

/-- The trace file exists. -/
def Exists (h : CallHistory ι) : Prop := ∃ x ∈ h, Creates x.2

/-- What the file system answers of the trace file: it is created once, and a process that looks
at it learns its length. -/
def tracing (parts : Parts) : Replies ι Call Call.Answer :=
  fun h _ op r =>
    (Creates ⟨op, r⟩ → ¬ Exists h) ∧
      ∀ n, looks ⟨op, r⟩ = some n → n = traceLength parts h ∧ (Creates ⟨op, r⟩ ∨ Exists h)

/-- A process appends only as long as nothing was appended that its count lacks: since it looked at
the file nobody else has appended, and none of its own writes has failed after a part of its
line. -/
def Informed (parts : Parts) : CallHistory ι → Prop
  | [] => True
  | (i, e) :: h =>
    Informed parts h ∧ (appendedBy (parts h.length) e ≠ [] → behind parts i h = 0)

end views

/-! ## One process -/

/-- Every line was checked against the count. -/
def Careful : RunnerLog → Prop
  | [] => True
  | e :: log =>
    Careful log ∧
      (offeredBy e ≠ [] → ∃ n, tally log = some n ∧ n + (offeredBy e).length ≤ maxTraceBytes)

/-- The discipline of processes that check their lines. -/
abbrev careful : Discipline (logMachine fun (_ : RunnerLog) (_ : Call) _ => True) :=
  keeping _ Careful

section process

variable {log : RunnerLog} {self : Self}

theorem careful_cons {e : RunnerEvent} (hlog : Careful log) (he : offeredBy e = []) :
    Careful (e :: log) :=
  ⟨hlog, fun h => absurd he h⟩

theorem tally_cons {e : RunnerEvent} (hlook : looks e = none) (he : countedBy e = []) :
    tally (e :: log) = tally log := by
  simp [tally, hlook, he]

theorem wp_write {trace : Trace} (event : String) (detail : Bytes) (hlog : Careful log)
    (htally : tally log = some trace.written) :
    careful.wp () (trace.write self event detail)
      (fun trace' log' => Careful log' ∧ tally log' = some trace'.written) log := by
  unfold Trace.write
  split
  · exact ⟨hlog, htally⟩
  refine wp_bind.mpr (wp_record fun now _ => ?_)
  have hasked : Careful (⟨.process (.now .traceWrite), now⟩ :: log) := careful_cons hlog rfl
  have hcount : tally (⟨.process (.now .traceWrite), now⟩ :: log) = some trace.written :=
    (tally_cons rfl rfl).trans htally
  refine ⟨hasked, wp_ret.mpr ?_⟩
  dsimp only
  generalize Trace.line _ _ _ _ _ = line
  split
  · exact ⟨hasked, hcount⟩
  · rename_i hfits
    refine wp_record fun r _ => ?_
    have hoffered : Careful (⟨.file (.writeAll .traceWrite trace.file line), r⟩ ::
        ⟨.process (.now .traceWrite), now⟩ :: log) :=
      ⟨hasked, fun _ => ⟨_, hcount, Nat.not_lt.mp hfits⟩⟩
    rcases r with error | _
    · exact ⟨hoffered, hoffered, (tally_cons rfl rfl).trans hcount⟩
    · refine ⟨hoffered, hoffered, ?_⟩
      rw [tally, hcount]
      rfl

theorem wp_writeLine {trace : Trace} (line : TraceLine) (hlog : Careful log)
    (htally : tally log = some trace.written) :
    careful.wp () (line.write self trace)
      (fun trace' log' => Careful log' ∧ tally log' = some trace'.written) log := by
  cases line with
  | event name => exact wp_write name _ hlog htally
  | metric name field value => exact wp_write name _ hlog htally
  | ioError name error =>
    show careful.wp () (trace.ioError self name error) _ log
    unfold Trace.ioError
    cases error.rawOsError <;> exact wp_write name _ hlog htally

theorem wp_writeLines {trace : Trace} {lines : List TraceLine} (hlog : Careful log)
    (htally : tally log = some trace.written) :
    careful.wp () (writeLines self lines trace) (fun _ log' => Careful log') log := by
  induction lines generalizing trace log with
  | nil => exact hlog
  | cons line lines ih =>
    refine wp_bind.mpr (wp_mono ?_ (wp_writeLine line hlog htally))
    exact fun trace' log' h => ih h.1 h.2

/-- What opening a trace comes to. -/
def Opens : Except IoError Trace → RunnerLog → Prop
  | .ok trace, log => Careful log ∧ tally log = some trace.written
  | .error _, log => Careful log

theorem wp_create {name : Name} {component : String} :
    careful.wp () (Trace.create self name component).run Opens [] := by
  unfold Trace.create
  refine wp_io_bind.mpr (wp_recorded fun r _ => ?_)
  have hasked : Careful [⟨.file (.createNew name 0o600), r⟩] := careful_cons trivial rfl
  rcases r with error | fd
  · exact ⟨hasked, hasked⟩
  · exact ⟨hasked, wp_lift.mpr (wp_write _ _ hasked rfl)⟩

theorem wp_openTrace {name : Name} {component : String} :
    careful.wp () (Trace.openTrace self name component).run Opens [] := by
  unfold Trace.openTrace
  refine wp_io_bind.mpr (wp_recorded fun r _ => ?_)
  have hasked : Careful [⟨.file (.lstat .traceOpen name), r⟩] := careful_cons trivial rfl
  refine ⟨hasked, ?_⟩
  rcases r with error | stat
  · exact hasked
  · dsimp only [onOk_ok]
    split
    · exact hasked
    · refine wp_io_bind.mpr (wp_recorded fun r _ => ?_)
      have hopened := careful_cons (e := ⟨.file (.openAppend name), r⟩) hasked rfl
      refine ⟨hopened, ?_⟩
      rcases r with error | fd
      · exact hopened
      · exact wp_lift.mpr (wp_write _ _ hopened rfl)

/-- A process checks every line against its count. -/
theorem wp_tracer (tracer : Tracer) (name : Name) :
    careful.wp () (tracer.program name).run (fun _ log' => Careful log') [] := by
  have hopened : careful.wp ()
      (if tracer.creates = true then Trace.create tracer.self name tracer.component
      else Trace.openTrace tracer.self name tracer.component).run Opens [] := by
    split
    · exact wp_create
    · exact wp_openTrace
  unfold Tracer.program
  refine wp_io_bind.mpr (wp_mono ?_ hopened)
  rintro (error | trace) log hopens
  · exact hopens
  · exact wp_lift.mpr (wp_writeLines hopens.1 hopens.2)

end process

/-! ## All processes -/

section histories

variable {ι : Type} [DecidableEq ι] {parts : Parts} {h : CallHistory ι} {i j : ι}
  {e : RunnerEvent}

theorem appendedBy_of_looks {n part : Nat} (hlook : looks e = some n) : appendedBy part e = [] := by
  unfold looks at hlook
  split at hlook
  · rfl
  · rfl
  · cases hlook

/-- What is counted was appended, and what is appended was offered. -/
theorem appendedBy_bounds (part : Nat) (e : RunnerEvent) :
    (countedBy e).length ≤ (appendedBy part e).length ∧
      (appendedBy part e).length ≤ (offeredBy e).length := by
  constructor
  · unfold countedBy
    split
    · exact Nat.le_refl _
    · exact Nat.zero_le _
  · unfold appendedBy
    split
    · exact Nat.le_refl _
    · rw [List.length_take]
      exact Nat.min_le_right _ _
    · exact Nat.zero_le _

theorem offeredBy_ne {part : Nat} (h : appendedBy part e ≠ []) : offeredBy e ≠ [] := by
  intro hnone
  have hle := (appendedBy_bounds part e).2
  rw [hnone] at hle
  exact h (List.length_eq_zero_iff.mp (Nat.le_zero.mp hle))

/-- Every process checked its lines. -/
def AllCareful (h : CallHistory ι) : Prop := ∀ i, Careful (own i h)

theorem allCareful_of_cons (hcareful : AllCareful ((j, e) :: h)) : AllCareful h := by
  intro i
  have hown := hcareful i
  by_cases hj : j = i
  · subst hj
    rw [own_same] at hown
    exact hown.1
  · rwa [own_other hj] at hown

omit [DecidableEq ι] in
theorem exists_of_cons (hexists : Exists h) : Exists ((j, e) :: h) := by
  obtain ⟨x, hx, hcreates⟩ := hexists
  exact ⟨x, List.mem_cons_of_mem _ hx, hcreates⟩

/-- **The file is as long as a process counts, and what was appended since that it lacks.** -/
theorem traceLength_eq {n : Nat} (hadmitted : Admitted (tracing parts) h) (hcareful : AllCareful h)
    (htally : tally (own i h) = some n) : traceLength parts h = n + behind parts i h := by
  induction h generalizing n with
  | nil => cases htally
  | cons x h ih =>
    obtain ⟨j, e⟩ := x
    have hbefore := allCareful_of_cons hcareful
    by_cases hj : j = i
    · subst hj
      rw [own_same, tally] at htally
      rw [traceLength, behind, if_pos rfl]
      cases hlook : looks e with
      | some m =>
        rw [hlook, Option.some_or, Option.some.injEq] at htally
        have happended : appendedBy (parts h.length) e = [] := appendedBy_of_looks hlook
        have hlength : m = traceLength parts h := (hadmitted.1.2 m hlook).1
        simp [happended, ← htally, hlength]
      | none =>
        rw [hlook, Option.none_or, Option.map_eq_some_iff] at htally
        obtain ⟨m, hm, rfl⟩ := htally
        have hcounted := (appendedBy_bounds (parts h.length) e).1
        rw [ih hadmitted.2 hbefore hm]
        simp only [Option.isSome_none, Bool.false_eq_true, if_false]
        omega
    · rw [own_other hj] at htally
      rw [traceLength, behind, if_neg hj, ih hadmitted.2 hbefore htally, Nat.add_assoc]

/-- A process whose count is the length of the file appends only what fits. -/
theorem fits_of_careful (hadmitted : Admitted (tracing parts) h)
    (hcareful : AllCareful ((i, e) :: h)) (hcurrent : behind parts i h = 0)
    (happended : appendedBy (parts h.length) e ≠ []) :
    traceLength parts h + (appendedBy (parts h.length) e).length ≤ maxTraceBytes := by
  have hown := hcareful i
  rw [own_same] at hown
  obtain ⟨n, htally, hfits⟩ := hown.2 (offeredBy_ne happended)
  have hlength := traceLength_eq hadmitted (allCareful_of_cons hcareful) htally
  have hoffered := (appendedBy_bounds (parts h.length) e).2
  omega

theorem bounded_of_informed (hadmitted : Admitted (tracing parts) h) (hcareful : AllCareful h)
    (hinformed : Informed parts h) :
    ∀ h', h' <:+ h → traceLength parts h' ≤ maxTraceBytes := by
  induction h with
  | nil =>
    intro h' hsuffix
    rw [List.suffix_nil.mp hsuffix]
    exact Nat.zero_le _
  | cons x h ih =>
    obtain ⟨i, e⟩ := x
    obtain ⟨hbefore, hcurrent⟩ := hinformed
    have hbounded := ih hadmitted.2 (allCareful_of_cons hcareful) hbefore
    intro h' hsuffix
    rcases List.suffix_cons_iff.mp hsuffix with rfl | hsuffix
    · by_cases happended : appendedBy (parts h.length) e = []
      · rw [traceLength, happended]
        exact hbounded h List.suffix_rfl
      · exact fits_of_careful hadmitted.2 hcareful (hcurrent happended) happended
    · exact hbounded h' hsuffix

omit [DecidableEq ι] in
/-- A process that looks at the file sees a length within the bound. -/
theorem look_le (hadmitted : Admitted (tracing parts) h)
    (hbounded : ∀ h', h' <:+ h → traceLength parts h' ≤ maxTraceBytes) :
    ∀ x ∈ h, ∀ n, looks x.2 = some n → n ≤ maxTraceBytes := by
  induction h with
  | nil => simp
  | cons x h ih =>
    rw [List.forall_mem_cons]
    refine ⟨fun n hlook => ?_, ih hadmitted.2 fun h' hsuffix =>
      hbounded h' (hsuffix.trans (List.suffix_cons _ _))⟩
    rw [(hadmitted.1.2 n hlook).1]
    exact hbounded h (List.suffix_cons _ _)

end histories

/-- **The trace file keeps its bound as long as nobody appends behind another's back**: whatever
processes trace a session, however their calls interleave and whatever a failed write leaves of its
line, the file stays within 1 MiB throughout a run in which a process appends only while its count
lacks nothing that was appended. Then nobody finds the file too long when it opens it. -/
theorem trace_bounded {ι : Type} [DecidableEq ι] (tracers : ι → Tracer) (name : Name)
    (parts : Parts) {h : CallHistory ι} {rest : ι → Prog (Except IoError Trace)}
    (hrun : Happens (tracing parts) (fun i => ((tracers i).program name).run) h rest)
    (hinformed : Informed parts h) :
    (∀ h', h' <:+ h → traceLength parts h' ≤ maxTraceBytes) ∧
      ∀ x ∈ h, ∀ n, looks x.2 = some n → n ≤ maxTraceBytes := by
  have hadmitted := admitted_of_reaches hrun
  have hcareful : AllCareful h := by
    intro i
    obtain ⟨q, hruns, -⟩ := runs_own hrun i
    exact (log_sound trivial (wp_tracer (tracers i) name) hruns).1
  have hbounded := bounded_of_informed hadmitted hcareful hinformed
  exact ⟨hbounded, look_le hadmitted hbounded⟩

/-! ## Runs -/

section runs

variable {ι : Type} [DecidableEq ι] {parts : Parts} {name : Name} {h : CallHistory ι} {i : ι}
  {p q : ι → Prog (Except IoError Trace)} {self : Self} {trace : Trace} (timestamp : UInt64)

/-- A process whose count lacks nothing, in an informed history. -/
def UpToDate (parts : Parts) (i : ι) (h : CallHistory ι) : Prop :=
  Informed parts h ∧ behind parts i h = 0

/-- Whole lines of a process that are counted leave it with nothing to catch up on. -/
theorem UpToDate.cons {e : RunnerEvent} (hcurrent : UpToDate parts i h)
    (hcounted : (appendedBy (parts h.length) e).length ≤ (countedBy e).length) :
    UpToDate parts i ((i, e) :: h) := by
  refine ⟨⟨hcurrent.1, fun _ => hcurrent.2⟩, ?_⟩
  rw [behind, if_pos rfl]
  split
  · rfl
  · have hcurrent := hcurrent.2
    omega

/-- A process that looks at the file has nothing to catch up on. -/
theorem Informed.look {e : RunnerEvent} {n : Nat} (hinformed : Informed parts h)
    (hlook : looks e = some n) : UpToDate parts i ((i, e) :: h) := by
  refine ⟨⟨hinformed, fun happended => absurd (appendedBy_of_looks hlook) happended⟩, ?_⟩
  rw [behind, if_pos rfl, if_pos (by rw [hlook]; rfl)]

/-- A call that does not open the trace. -/
theorem Happens.ask (op : Call) (r : op.Answer) {k : op.Answer → Prog (Except IoError Trace)}
    (hrun : Happens (tracing parts) p h q) (hpool : q i = .call op k) (hcreates : ¬ Creates ⟨op, r⟩)
    (hlook : looks ⟨op, r⟩ = none) :
    Happens (tracing parts) p ((i, ⟨op, r⟩) :: h) (Function.update q i (k r)) := by
  refine Interaction.Happens.call hrun op r hpool ⟨fun h => absurd h hcreates, fun n hn => ?_⟩
  rw [hlook] at hn
  cases hn

/-- A process writes a line for which its count has room. -/
theorem happens_write {event : String} {detail line : Bytes}
    {f : Trace → Prog (Except IoError Trace)} (hrun : Happens (tracing parts) p h q)
    (hpool : q i = (trace.write self event detail).bind f)
    (hline : Trace.line timestamp.toNat self.pid.toNat trace.component event detail = line)
    (hpos : 0 < line.length) (hfits : trace.written + line.length ≤ maxTraceBytes) :
    ∃ h', Happens (tracing parts) p h'
        (Function.update q i (f { trace with written := trace.written + line.length })) ∧
      traceLength parts h' = traceLength parts h + line.length ∧ (Exists h → Exists h') ∧
        (UpToDate parts i h → UpToDate parts i h') := by
  have hopen : ¬ maxTraceBytes ≤ trace.written := by omega
  unfold Trace.write at hpool
  rw [if_neg hopen] at hpool
  have hnow := Happens.ask (.process (.now .traceWrite)) (.ok timestamp : Except IoError UInt64)
    hrun hpool id rfl
  have hroom : ¬ maxTraceBytes < trace.written + (Trace.line timestamp.toNat self.pid.toNat
      trace.component event detail).length := by
    rw [hline]
    omega
  have hwrite := Happens.ask (.file (.writeAll .traceWrite trace.file line))
    (.ok () : Except IoError Unit) (i := i)
    (k := fun r => (match r with
      | .ok () => (pure { trace with written := trace.written + line.length } : Prog Trace)
      | .error _ => pure trace).bind f) hnow ?_ id rfl
  · rw [Function.update_idem] at hwrite
    refine ⟨_, hwrite, ?_, fun hexists => exists_of_cons (exists_of_cons hexists),
      fun hcurrent => (hcurrent.cons (Nat.le_refl _)).cons (Nat.le_refl _)⟩
    rfl
  · rw [Function.update_self]
    show Program.bind (if _ then _ else _) f = _
    split
    · rename_i hfull
      exact absurd hfull hroom
    · rw [← hline]
      rfl

/-- A process writes the same line again and again, as long as its count has room. -/
theorem happens_lines {event : String} {line : Bytes} {g : Trace → Prog (Except IoError Trace)}
    {n : Nat} (hrun : Happens (tracing parts) p h q)
    (hpool : q i = (writeLines self (List.replicate n (.event event)) trace).bind g)
    (hline : Trace.line timestamp.toNat self.pid.toNat trace.component event [] = line)
    (hpos : 0 < line.length) (hfits : trace.written + n * line.length ≤ maxTraceBytes) :
    ∃ h' q', Happens (tracing parts) p h' q' ∧
      traceLength parts h' = traceLength parts h + n * line.length := by
  induction n generalizing h q trace with
  | zero => exact ⟨h, q, hrun, by omega⟩
  | succ n ih =>
    have hnext : trace.written + line.length + n * line.length ≤ maxTraceBytes := by
      rw [Nat.succ_mul] at hfits
      omega
    rw [List.replicate_succ, writeLines, Program.bind_eq, Program.bind_assoc] at hpool
    obtain ⟨h₁, hrun₁, hlength₁, -⟩ := happens_write timestamp hrun hpool hline hpos
      (by omega)
    obtain ⟨h₂, q₂, hrun₂, hlength₂⟩ := ih hrun₁ (Function.update_self ..) hline hnext
    refine ⟨h₂, q₂, hrun₂, ?_⟩
    rw [hlength₂, hlength₁, Nat.succ_mul]
    omega

/-- What a tracer does once its trace is open. -/
def Tracer.traced (tracer : Tracer) (trace : Trace) : Prog (Except IoError Trace) :=
  (writeLines tracer.self tracer.lines trace).bind fun trace => .ret (.ok trace)

theorem run_traced (tracer : Tracer) (p : Prog Trace) :
    ((liftM p : Io Trace) >>= fun trace => liftM (writeLines tracer.self tracer.lines trace)).run =
      p.bind tracer.traced := by
  rw [run_lift_bind]
  rfl

/-- The runner creates the file. -/
theorem happens_create (tracer : Tracer) {line : Bytes} (hrun : Happens (tracing parts) p h q)
    (hpool : q i = (tracer.program name).run) (hcreates : tracer.creates = true)
    (hnew : ¬ Exists h) (hempty : traceLength parts h = 0)
    (hline : Trace.line timestamp.toNat tracer.self.pid.toNat tracer.component "trace_started" []
      = line)
    (hpos : 0 < line.length) (hfits : line.length ≤ maxTraceBytes) :
    ∃ h', Happens (tracing parts) p h' (Function.update q i
        (tracer.traced ⟨3, tracer.component, line.length⟩)) ∧
      traceLength parts h' = line.length ∧ Exists h' ∧
        (Informed parts h → Informed parts h') := by
  unfold Tracer.program at hpool
  rw [if_pos hcreates] at hpool
  have hcreated := Interaction.Happens.call (A := tracing parts) hrun (.file (.createNew name 0o600))
    (.ok 3 : Except IoError Fd) hpool
    ⟨fun _ => hnew, fun n hn => ⟨(Option.some.inj hn).symm.trans hempty.symm, .inl trivial⟩⟩
  obtain ⟨h', hrun', hlength, hexists, hcurrent⟩ := happens_write timestamp (f := tracer.traced)
    (i := i) hcreated ((Function.update_self ..).trans (run_traced tracer
      (Trace.event tracer.self ⟨3, tracer.component, 0⟩ "trace_started"))) hline hpos
    (by simpa using hfits)
  rw [Function.update_idem, Nat.zero_add] at hrun'
  refine ⟨h', hrun', ?_, hexists ⟨_, List.mem_cons_self, trivial⟩,
    fun hinformed => (hcurrent (hinformed.look rfl)).1⟩
  rw [hlength, traceLength, hempty]
  exact Nat.zero_add _

/-- An attachment joins the file that has been created. -/
theorem happens_join (tracer : Tracer) {line : Bytes} (hrun : Happens (tracing parts) p h q)
    (hpool : q i = (tracer.program name).run) (hjoins : tracer.creates = false)
    (hexists : Exists h)
    (hline : Trace.line timestamp.toNat tracer.self.pid.toNat tracer.component "trace_opened" []
      = line)
    (hpos : 0 < line.length) (hfits : traceLength parts h + line.length ≤ maxTraceBytes) :
    ∃ h', Happens (tracing parts) p h' (Function.update q i
        (tracer.traced ⟨3, tracer.component, traceLength parts h + line.length⟩)) ∧
      traceLength parts h' = traceLength parts h + line.length ∧
        (Informed parts h → Informed parts h') := by
  unfold Tracer.program at hpool
  rw [if_neg (by simp [hjoins])] at hpool
  -- The process finds the file as long as it is, within the bound.
  have hlooked := Interaction.Happens.call (A := tracing parts) hrun (.file (.lstat .traceOpen name))
    (.ok ⟨.regular, tracer.self.uid, 0o600, traceLength parts h⟩ : Except IoError Stat) hpool
    ⟨fun hcreates => hcreates.elim, fun n hn => ⟨(Option.some.inj hn).symm, .inr hexists⟩⟩
  have hsafe : ¬ (FileKind.regular ≠ .regular ∨ tracer.self.uid ≠ tracer.self.uid ∨
      (0o600 : Nat) ≠ 0o600 ∨ maxTraceBytes < traceLength parts h) := by
    simp only [ne_eq, not_true_eq_false, false_or, not_lt]
    omega
  have hopened := Happens.ask (.file (.openAppend name)) (.ok 3 : Except IoError Fd)
    (i := i) (k := fun r => ((ask (.ret r) >>= fun fd =>
        (liftM (Trace.event tracer.self ⟨fd, tracer.component, traceLength parts h⟩ "trace_opened") :
          Io Trace)) >>= fun trace => liftM (writeLines tracer.self tracer.lines trace)).run)
    hlooked ?_ id rfl
  · -- It writes its line at once, so that its count lacks nothing.
    rw [Function.update_idem] at hopened
    obtain ⟨h', hrun', hlength, -, hcurrent⟩ := happens_write timestamp (f := tracer.traced)
      (i := i) hopened ((Function.update_self ..).trans (run_traced tracer
        (Trace.event tracer.self ⟨3, tracer.component, traceLength parts h⟩ "trace_opened"))) hline hpos
      hfits
    rw [Function.update_idem] at hrun'
    refine ⟨h', hrun', hlength, fun hinformed => ?_⟩
    exact (hcurrent ((hinformed.look rfl).cons (Nat.le_refl _))).1
  · rw [Function.update_self]
    show Program.bind (ExceptT.run (if _ then _ else _)) _ = _
    rw [if_neg hsafe]
    rfl

end runs

/-- A runner that accepts many candidates, and an attachment that joins it at the start. -/
def crowdedTracers : Bool → Tracer
  | true =>
    { self := { pid := 7, uid := 0, home := none, shell := none, rounds := 4 }
      creates := true
      component := "runner"
      lines := .replicate 15195 (.event "candidate_accepted") }
  | false =>
    { self := { pid := 8, uid := 0, home := none, shell := none, rounds := 4 }
      creates := false
      component := "attachment"
      lines := [] }

def crowdedTrace : Name := ascii "07070707070707070707070707070707.trace"

theorem length_started :
    (Trace.line (1700000000 : UInt64).toNat 7 "runner" "trace_started" []).length = 64 := by
  decide +kernel

theorem length_joined :
    (Trace.line (1700000000 : UInt64).toNat 8 "attachment" "trace_opened" []).length = 67 := by
  decide +kernel

theorem length_accepted :
    (Trace.line (1700000000 : UInt64).toNat 7 "runner" "candidate_accepted" []).length = 69 := by
  decide +kernel

/-- The runner has created the file, and the attachment has joined it. -/
theorem happens_joined (parts : Parts) : ∃ h q,
    Happens (tracing parts) (fun i => ((crowdedTracers i).program crowdedTrace).run) h q ∧
      q true = (crowdedTracers true).traced ⟨3, "runner", 64⟩ ∧ traceLength parts h = 131 ∧
        Informed parts h := by
  obtain ⟨h, hrun, hlength, hexists, hcreated⟩ := happens_create 1700000000 (crowdedTracers true)
    (i := true) (h := []) (p := fun i => ((crowdedTracers i).program crowdedTrace).run) .refl rfl
    rfl (by simp [Exists]) rfl rfl (length_started ▸ by decide) (length_started ▸ by decide)
  have hstarted : traceLength parts h = 64 := hlength.trans length_started
  obtain ⟨h', hrun', hlength', hjoined⟩ := happens_join 1700000000 (crowdedTracers false)
    (i := false) hrun
    (Function.update_of_ne (by decide) _ _) rfl hexists rfl (length_joined ▸ by decide)
    (by rw [hstarted]; exact length_joined ▸ by decide)
  refine ⟨h', _, hrun', ?_, hlength'.trans (by rw [hstarted]; exact length_joined ▸ rfl),
    hjoined (hcreated trivial)⟩
  rw [Function.update_of_ne (by decide), Function.update_self]
  exact congrArg _ (congrArg _ length_started)

/-- The runner and the attachment each append a line, and nobody is disturbed. -/
theorem trace_bounded_joined : ∃ h rest,
    Happens (tracing fun _ => 0) (fun i => ((crowdedTracers i).program crowdedTrace).run) h rest ∧
      traceLength (fun _ => 0) h = 131 ∧
        ∀ h', h' <:+ h → traceLength (fun _ => 0) h' ≤ maxTraceBytes := by
  obtain ⟨h, q, hrun, -, hlength, hinformed⟩ := happens_joined fun _ => 0
  exact ⟨h, q, hrun, hlength,
    (trace_bounded crowdedTracers crowdedTrace (fun _ => 0) hrun hinformed).1⟩

/-- The runner fills the file to its own count; with the attachment's line it is too long. No write
fails. -/
theorem trace_exceeds : ∃ h rest,
    Happens (tracing fun _ => 0) (fun i => ((crowdedTracers i).program crowdedTrace).run) h rest ∧
      maxTraceBytes < traceLength (fun _ => 0) h := by
  obtain ⟨h, q, hrun, hpool, hlength, -⟩ := happens_joined fun _ => 0
  obtain ⟨h', q', hrun', hlength'⟩ := happens_lines 1700000000 (i := true) hrun hpool
    rfl (length_accepted ▸ by decide)
    (by show 64 + 15195 * _ ≤ _; exact length_accepted ▸ by decide)
  refine ⟨h', q', hrun', ?_⟩
  rw [hlength', hlength]
  exact length_accepted ▸ by decide

end AfkCli
