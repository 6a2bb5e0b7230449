import AfkCli.Cleaning
import AfkCli.Farewell
import AfkCli.Starting
import AfkCli.Store

/-!
# A completed session is shown

Whoever joins a session without a runner is shown its record and its output as they are stored. With
the two steps of a completion this joins the runner that completed a session to every attachment
after it, wherever the runner was killed: an attachment shows all of the tail and returns the exit,
or it does not show the session.

## Main definitions

* `Undisturbed`: all files of a session but its trace are as they were
* `Alone.ShownFrom`: what an attachment shows of a record

## Main results

* `Alone.wp_attach_shows`: an attachment without a runner shows what is stored
* `completed_replayed`: what is stored is what the runner has completed
-/

namespace AfkCli

open Interaction Discipline Function

/-! ## What is read -/

theorem hasRecord_iff_content {R : Registry} {s : Kernel} {session : SessionId}
    {metadata : SessionMetadata} :
    HasRecord R s session metadata ↔ ∃ bytes,
      s.content (sessionPaths session).metadata = some ⟨.regular, R.uid, 0o600, bytes⟩ ∧
        bytes.length ≤ maxMetadataBytes ∧ R.serde.fromSlice bytes = some metadata ∧
          metadata.sessionId = session.toText := by
  constructor
  · rintro ⟨n, hn, ⟨hkind, huid, hmode⟩, hlength, hbytes, hid⟩
    refine ⟨(s.inode n).bytes, ?_, hlength, hbytes, hid⟩
    rw [Kernel.content_some hn, Inode.content, hkind, huid, hmode]
  · rintro ⟨bytes, hcontent, hlength, hbytes, hid⟩
    cases hn : s.dir (sessionPaths session).metadata with
    | none =>
      rw [Kernel.content_none hn] at hcontent
      cases hcontent
    | some n =>
      rw [Kernel.content_some hn] at hcontent
      have hnode : (s.inode n).content = ⟨.regular, R.uid, 0o600, bytes⟩ := Option.some.inj hcontent
      obtain rfl : (s.inode n).bytes = bytes := congrArg Content.bytes hnode
      exact ⟨n, hn, ⟨congrArg Content.kind hnode, congrArg Content.uid hnode,
        congrArg Content.mode hnode⟩, hlength, hbytes, hid⟩

/-- A record is where its file is. -/
theorem HasRecord.of_content {R : Registry} {s s' : Kernel} {session : SessionId}
    {metadata : SessionMetadata} (h : HasRecord R s session metadata)
    (hcontent : s'.content (sessionPaths session).metadata =
      s.content (sessionPaths session).metadata) : HasRecord R s' session metadata := by
  rw [hasRecord_iff_content, hcontent]
  exact hasRecord_iff_content.mp h

/-- What a file of the user is read as. -/
theorem content_of_readable {s : Kernel} {name : Name} {uid mode limit n : Nat}
    (h : Alone.Readable s name uid mode limit n) :
    s.content name = some ⟨.regular, uid, mode, (s.inode n).bytes⟩ := by
  obtain ⟨hn, ⟨hkind, huid, hmode⟩, -⟩ := h
  rw [Kernel.content_some hn, Inode.content, hkind, huid, hmode]

/-! ## The trace -/

/-- The entries are as they were, and so is every file but the trace of the session. -/
structure Undisturbed (session : SessionId) (s s' : Kernel) : Prop where
  dir : s'.dir = s.dir
  inode : ∀ n, s.dir (sessionPaths session).trace ≠ some n →
    (s'.inode n).content = (s.inode n).content

namespace Undisturbed

variable {session : SessionId} {s s' s'' : Kernel} {name : Name}

theorem refl (s : Kernel) : Undisturbed session s s := ⟨rfl, fun _ _ => rfl⟩

theorem trans (h : Undisturbed session s s') (h' : Undisturbed session s' s'') :
    Undisturbed session s s'' := by
  refine ⟨h'.dir.trans h.dir, fun n hn => ?_⟩
  rw [h'.inode n (by rwa [h.dir]), h.inode n hn]

theorem of_pruned (h : Pruned (fun _ => False) s s') : Undisturbed session s s' :=
  ⟨funext fun _ => h.keeps not_false, fun n _ => by rw [h.inode]⟩

theorem clock {i : Proc} (site : Site) (r : Except IoError UInt64) :
    Undisturbed session s (s.next i (.process (.now site)) r) := by
  cases r <;> exact ⟨rfl, fun _ _ => rfl⟩

/-- A line is written to the trace. -/
theorem line {i : Proc} {site : Site} {fd : Fd} {bytes : Bytes}
    (hfd : s.dir (sessionPaths session).trace = some fd) (r : Except IoError Unit) :
    Undisturbed session s (s.next i (.file (.writeAll site fd bytes)) r) := by
  cases r with
  | error error => exact ⟨rfl, fun _ _ => rfl⟩
  | ok _ =>
    refine ⟨rfl, fun n hn => ?_⟩
    have hne : n ≠ fd := fun he => hn (he ▸ hfd)
    show (update s.inode fd _ n).content = _
    rw [update_of_ne hne]

/-- No other name leads to the trace, so what they store stays. -/
theorem content (h : Undisturbed session s s')
    (hlinks : ∀ n, s.dir name = some n → s.dir (sessionPaths session).trace ≠ some n) :
    s'.content name = s.content name :=
  Kernel.content_congr (congrFun h.dir name) fun n hn => h.inode n (hlinks n hn)

end Undisturbed

/-- The calls that show nothing. -/
def Mute (op : Call) : Prop := ∀ bytes, op ≠ .terminal (.writeOutput bytes)

theorem shown_cons {op : Call} (hop : Mute op) (r : op.Answer) (log : RunnerLog) :
    shown (⟨op, r⟩ :: log) = shown log := by
  have hnothing : shownBy ⟨op, r⟩ = [] := by
    unfold shownBy
    split
    · rename_i heq
      exact absurd (congrArg Event.op heq) (hop _)
    · rfl
  rw [shown, hnothing, List.append_nil]

theorem shown_grew {log log' : RunnerLog} (h : GrewBy Mute log log') : shown log' = shown log := by
  obtain ⟨new, rfl, hnew⟩ := h
  induction new with
  | nil => rfl
  | cons e new ih =>
    rw [List.cons_append, shown_cons (hnew e List.mem_cons_self),
      ih fun e' he' => hnew e' (List.mem_cons_of_mem _ he')]

theorem mute_of_opens (op : Call) (h : Surface.Opens op) : Mute op := by
  rintro bytes rfl
  exact h

theorem mute_of_looks (op : Call) (h : Surface.Looks op) : Mute op := by
  rintro bytes rfl
  exact h

theorem mute_of_connects {session : SessionId} (op : Call) (h : Surface.Connects session op) :
    Mute op := by
  rintro bytes rfl
  exact h

namespace Alone

variable {i : Proc} {s₀ : Kernel} {F : Faults} {log log' log'' : RunnerLog} {R : Registry}
  {session : SessionId} {self : Self}

/-- Nothing was shown, and all files but the trace are as they were. -/
structure Calm (session : SessionId) (i : Proc) (s₀ : Kernel) (log log' : RunnerLog) : Prop where
  undisturbed : Undisturbed session (after i s₀ log) (after i s₀ log')
  shown : AfkCli.shown log' = AfkCli.shown log

theorem Calm.refl (log : RunnerLog) : Calm session i s₀ log log := ⟨.refl _, rfl⟩

theorem Calm.trans (h : Calm session i s₀ log log') (h' : Calm session i s₀ log' log'') :
    Calm session i s₀ log log'' :=
  ⟨h.undisturbed.trans h'.undisturbed, h'.shown.trans h.shown⟩

/-- The trace is the session's. -/
def TraceOf (session : SessionId) (s : Kernel) (trace : Option Trace) : Prop :=
  ∀ t ∈ trace, s.dir (sessionPaths session).trace = some t.file

/-- A program that only writes lines to the trace. -/
theorem wp_lines {α : Type} {q : α → Prop} {p : Prog α} {fd : Option Fd}
    (hfd : ∀ n ∈ fd, (after i s₀ log).dir (sessionPaths session).trace = some n)
    (hp : p.Within (fun _ _ => True) (fun op => (∃ site, op = .process (.now site)) ∨
      ∃ site bytes, ∃ n ∈ fd, op = .file (.writeAll site n bytes)) q) :
    (solo i s₀ F fun _ => True).wp () p (fun a log' => q a ∧ Calm session i s₀ log log') log := by
  refine wp_quiet (P := Calm session i s₀ log) hp ?_ (.refl log)
  rintro op r log' (⟨site, rfl⟩ | ⟨site, bytes, n, hn, rfl⟩) h
  · exact ⟨trivial, h.trans ⟨.clock site r, shown_cons (by rintro _ ⟨⟩) r log'⟩⟩
  · refine ⟨trivial, h.trans ⟨.line ?_ r, shown_cons (by rintro _ ⟨⟩) r log'⟩⟩
    rw [h.undisturbed.dir]
    exact hfd n hn

/-- The lines of a trace. -/
theorem takesTrace_lines (trace : Option Trace) :
    TakesTrace (fun op => (∃ site, op = .process (.now site)) ∨
      ∃ site bytes, ∃ n ∈ trace.map Trace.file, op = .file (.writeAll site n bytes)) trace :=
  ⟨.inl ⟨_, rfl⟩, fun t ht bytes => .inr ⟨_, bytes, t.file, Option.mem_map_of_mem _ ht, rfl⟩⟩

theorem TraceOf.of_same {trace trace' : Option Trace} {s s' : Kernel}
    (h : TraceOf session s trace) (hdir : s'.dir = s.dir) (hsame : SameFile trace trace') :
    TraceOf session s' trace' := by
  intro t' ht'
  have hfile : trace.map Trace.file = some t'.file := by
    rw [← hsame, ht']
    rfl
  obtain ⟨t, ht, hfile⟩ := Option.map_eq_some_iff.mp hfile
  rw [hdir, ← hfile]
  exact h t ht

theorem TraceOf.files {trace : Option Trace} {s : Kernel} (h : TraceOf session s trace) :
    ∀ n ∈ trace.map Trace.file, s.dir (sessionPaths session).trace = some n := by
  intro n hn
  obtain ⟨t, ht, rfl⟩ := Option.mem_map.mp hn
  exact h t ht

/-- What a line comes to. -/
def Lined (session : SessionId) (i : Proc) (s₀ : Kernel) (log : RunnerLog) (trace : Option Trace)
    (log' : RunnerLog) : Prop :=
  TraceOf session (after i s₀ log') trace ∧ Calm session i s₀ log log'

theorem wp_line {trace : Option Trace} {p : Prog (Option Trace)}
    (h : TraceOf session (after i s₀ log) trace)
    (hp : ∀ {ops : Call → Prop}, TakesTrace ops trace →
      p.Within (fun _ _ => True) ops (SameFile trace)) :
    (solo i s₀ F fun _ => True).wp () p (Lined session i s₀ log) log :=
  wp_mono (fun _ _ hline => ⟨h.of_same hline.2.undisturbed.dir hline.1, hline.2⟩)
    (wp_lines h.files (hp (takesTrace_lines trace)))

theorem wp_openTrace :
    (solo i s₀ F fun _ => True).wp ()
      (Trace.openTrace self (sessionPaths session).trace "attachment").run
      (fun r log' => Calm session i s₀ log log' ∧
        ∀ trace, r = .ok trace → TraceOf session (after i s₀ log') (some trace)) log := by
  unfold Trace.openTrace
  refine wp_io_bind.mpr (wp_alone unobserved_true (by rintro _ ⟨⟩) fun r hr => ?_)
  obtain ⟨hsame, hcause⟩ := hr.lstat
  have hlook : Calm session i s₀ log (⟨.file (.lstat .traceOpen (sessionPaths session).trace), r⟩ ::
      log) := ⟨.of_pruned (.of_eq hsame), shown_cons (by rintro _ ⟨⟩) r log⟩
  rcases r with error | metadata
  · exact wp_ret.mpr ⟨hlook, by rintro _ ⟨⟩⟩
  obtain ⟨_, ⟨⟩, -⟩ | ⟨-, ⟨⟩⟩ | ⟨n, hn, hmetadata⟩ := hcause
  show (solo i s₀ F fun _ => True).wp () (ExceptT.run (ite _ _ _)) _ _
  split
  · exact wp_ret.mpr ⟨hlook, by rintro _ ⟨⟩⟩
  · rename_i hsafe
    have hkind : ((after i s₀ log).inode n).kind = .regular := by
      have hregular : metadata.kind = .regular := by
        by_contra hkind
        exact hsafe (.inl hkind)
      rw [← hregular, Except.ok.inj hmetadata]
      rfl
    refine wp_io_bind.mpr (wp_alone unobserved_true (by rintro _ ⟨⟩) fun r' hr' => ?_)
    have hopened : Calm session i s₀ log (⟨.file (.openAppend (sessionPaths session).trace), r'⟩ ::
        ⟨.file (.lstat .traceOpen (sessionPaths session).trace), .ok metadata⟩ :: log) :=
      hlook.trans ⟨.of_pruned (Pruned.next r' rfl), shown_cons (by rintro _ ⟨⟩) r' _⟩
    have hentry : (after i s₀ (⟨.file (.lstat .traceOpen (sessionPaths session).trace),
        .ok metadata⟩ :: log)).dir (sessionPaths session).trace = some n := by
      rw [after_cons, hsame]
      exact hn
    rw [after_cons, hsame] at hr'
    rcases r' with error | fd
    · exact wp_ret.mpr ⟨hopened, by rintro _ ⟨⟩⟩
    -- a regular file is opened under its inode
    have hfd : fd = n := by
      obtain ⟨error, ⟨⟩, -, -⟩ | hstep := hr'.file (by rintro ⟨⟩)
      have hanswer := congrArg Prod.fst hstep
      simp only [Kernel.fileStep, hn, hkind] at hanswer
      exact (Except.ok.inj hanswer).symm
    subst hfd
    have htrace : TraceOf session (after i s₀ (⟨.file (.openAppend (sessionPaths session).trace),
        .ok fd⟩ :: ⟨.file (.lstat .traceOpen (sessionPaths session).trace), .ok metadata⟩ :: log))
          (some { file := fd, component := "attachment", written := metadata.len }) := by
      rintro _ ⟨⟩
      rw [hopened.undisturbed.dir]
      exact hn
    refine wp_lift.mpr (wp_mono ?_ (wp_lines htrace.files
      (within_traceWrite (takesTrace_lines _) "trace_opened" [])))
    rintro trace log' ⟨hfile, hcalm⟩
    refine ⟨hopened.trans hcalm, ?_⟩
    rintro _ ⟨⟩
    exact htrace.of_same hcalm.undisturbed.dir (congrArg some hfile)

theorem wp_attachmentTrace {enabled : Bool} :
    (solo i s₀ F fun _ => True).wp () (attachmentTrace self R session enabled).run
      (fun r log' => Calm session i s₀ log log' ∧
        ∀ trace, r = .ok trace → TraceOf session (after i s₀ log') trace) log := by
  have hnone : ∀ {log' : RunnerLog}, TraceOf session (after i s₀ log') none := by
    rintro _ _ ⟨⟩
  unfold attachmentTrace
  split
  · by_cases hfits : R.Fits session
    · rw [Registry.paths_eq hfits, pure_bind]
      refine wp_attempt_bind.mpr (wp_mono ?_ wp_openTrace)
      rintro (error | trace) log' ⟨hcalm, htrace⟩
      · dsimp only
        split
        · refine wp_ret.mpr ⟨hcalm, ?_⟩
          rintro _ ⟨⟩
          exact hnone
        · exact wp_ret.mpr ⟨hcalm, by rintro _ ⟨⟩⟩
      · refine wp_ret.mpr ⟨hcalm, ?_⟩
        rintro _ ⟨⟩
        exact htrace trace rfl
    · rw [Registry.paths_error hfits]
      exact wp_ret.mpr ⟨.refl log, by rintro _ ⟨⟩⟩
  · refine wp_ret.mpr ⟨.refl log, ?_⟩
    rintro _ ⟨⟩
    exact hnone

/-- What an attachment shows of a record and an output. -/
def replayLines (truncated : Bool) (output : Option Bytes) (status : ProcessExit) : List Bytes :=
  (if truncated then [truncationMarker] else []) ++ output.toList ++ [completionLine status]

/-- The output, as it is stored. -/
def StoredOutput (R : Registry) (session : SessionId) (s : Kernel) (output : Option Bytes) : Prop :=
  s.content (sessionPaths session).output =
    output.map fun bytes => ⟨.regular, R.uid, 0o600, bytes⟩

/-- Something is shown, or the attachment fails. -/
theorem wp_writeOutput {bytes : Bytes} :
    (solo i s₀ F fun _ => True).wp () (ask (terminal (.writeOutput bytes))).run
      (fun r log' => r = .ok () →
        shown log' = shown log ++ [bytes] ∧ after i s₀ log' = after i s₀ log) log := by
  refine wp_alone unobserved_true (by rintro _ ⟨⟩) fun r _ => ?_
  rintro rfl
  exact ⟨rfl, rfl⟩

theorem wp_readOutput (hF : F.Honest) :
    (solo i s₀ F fun _ => True).wp () (R.readOutput session).run
      (fun r log' => Calm session i s₀ log log' ∧
        ∀ output, r = .ok output → StoredOutput R session (after i s₀ log) output) log := by
  have honly : Only Mute (R.readOutput session) := Surface.only_readOutput mute_of_looks
  refine wp_mono ?_ (wp_grows honly (Q := fun r log' => after i s₀ log' = after i s₀ log ∧
    ∀ output, r = .ok output → StoredOutput R session (after i s₀ log) output) ?_)
  · rintro r log' ⟨⟨hsame, houtput⟩, hgrew⟩
    exact ⟨⟨.of_pruned (.of_eq hsame), shown_grew hgrew⟩, houtput⟩
  unfold Registry.readOutput
  by_cases hfits : R.Fits session
  · rw [Registry.paths_eq hfits, pure_bind]
    refine wp_mono ?_ (wp_readBoundedFile unobserved_true hF)
    rintro r log' ⟨hsame, hnone, hsome, -, -⟩
    refine ⟨hsame, ?_⟩
    rintro (_ | bytes) rfl
    · exact Kernel.content_none (hnone rfl)
    · obtain ⟨n, hn, rfl⟩ := hsome bytes rfl
      exact content_of_readable hn
  · rw [Registry.paths_error hfits]
    exact wp_ret.mpr ⟨rfl, by rintro _ ⟨⟩⟩

/-- The record is shown with the stored output. -/
theorem wp_replayCompleted (hF : F.Honest) {exit : ExitMetadata} {truncated : Bool} :
    (solo i s₀ F fun _ => True).wp () (replayCompleted R session exit truncated).run
      (fun r log' => ∀ status, r = .ok status → status = exit.toProcessExit ∧
        ∃ output, StoredOutput R session (after i s₀ log) output ∧
          shown log' = shown log ++ replayLines truncated output status) log := by
  have hmarker : (solo i s₀ F fun _ => True).wp ()
      (ExceptT.run (if truncated then ask (terminal (.writeOutput truncationMarker)) else pure () :
        Io Unit))
      (fun r log' => r = .ok () →
        shown log' = shown log ++ (if truncated then [truncationMarker] else []) ∧
          after i s₀ log' = after i s₀ log) log := by
    split
    · exact wp_writeOutput
    · exact wp_ret.mpr fun _ => ⟨(List.append_nil _).symm, rfl⟩
  have houtput : ∀ (output : Option Bytes) (log₁ : RunnerLog), (solo i s₀ F fun _ => True).wp ()
      (showOutput output).run
      (fun r log' => r = .ok () → shown log' = shown log₁ ++ output.toList) log₁ := by
    intro output log₁
    cases output with
    | none => exact wp_ret.mpr fun _ => (List.append_nil _).symm
    | some bytes => exact wp_mono (fun _ _ h hr => (h hr).1) wp_writeOutput
  unfold replayCompleted
  refine wp_seq _ hmarker (fun _ log₁ h₁ => ?_) (by rintro error _ - _ ⟨⟩)
  obtain ⟨hshown₁, hsame⟩ := h₁ rfl
  refine wp_seq _ (wp_readOutput hF) (fun output log₂ h₂ => ?_) (by rintro error _ - _ ⟨⟩)
  have hstored : StoredOutput R session (after i s₀ log) output := hsame ▸ h₂.2 output rfl
  refine wp_seq _ (houtput output log₂) (fun _ log₃ h₃ => ?_) (by rintro error _ - _ ⟨⟩)
  have hshown₃ := h₃ rfl
  refine wp_seq (fun r log' => r = .ok () →
    shown log' = shown log₃ ++ [completionLine exit.toProcessExit]) ?_ (fun _ log₄ h₄ => ?_)
    (by rintro error _ - _ ⟨⟩)
  · unfold writeCompletion
    refine wp_seq _ wp_writeOutput (fun _ log₄ h₄ => ?_) (by rintro error _ - ⟨⟩)
    refine wp_alone unobserved_true (by rintro _ ⟨⟩) fun r _ hr => ?_
    rw [shown_cons (by rintro _ ⟨⟩)]
    exact (h₄ rfl).1
  · refine wp_ret.mpr ?_
    rintro _ ⟨⟩
    refine ⟨rfl, output, hstored, ?_⟩
    rw [h₄ rfl, hshown₃, h₂.1.shown, hshown₁, replayLines]
    simp only [List.append_assoc]

/-- What an attachment shows of a session, as it is stored. -/
def ShownFrom (R : Registry) (session : SessionId) (s : Kernel) (status : ProcessExit)
    (lines : List Bytes) : Prop :=
  ∃ id startedAt finishedAt exit outputBytes truncated output,
    HasRecord R s session (.completed id startedAt finishedAt exit outputBytes truncated) ∧
      StoredOutput R session s output ∧ status = exit.toProcessExit ∧
        lines = replayLines truncated output status

/-- What is there after an opening was there before. -/
theorem ShownFrom.of_swept {now : UInt64} {names : List Name} {s s' : Kernel} {status : ProcessExit}
    {lines : List Bytes} (hswept : Swept R now names s s')
    (h : ShownFrom R session s' status lines) : ShownFrom R session s status lines := by
  obtain ⟨id, startedAt, finishedAt, exit, outputBytes, truncated, output, hrecord, houtput,
    hrest⟩ := h
  refine ⟨id, startedAt, finishedAt, exit, outputBytes, truncated, output,
    hrecord.of_pruned hswept.pruned, ?_, hrest⟩
  obtain hkept | ⟨hexpired, -⟩ := hswept.pruned.dir (sessionPaths session).output
  · rw [StoredOutput, ← houtput]
    exact (Kernel.content_congr hkept fun n _ => by rw [hswept.pruned.inode]).symm
  · -- an expired output is removed with its record
    obtain ⟨session', metadata, hrecord', hexpired, hlisted, hfile⟩ := hexpired
    obtain rfl : session' = session := by
      by_contra hne
      refine files_disjoint (Ne.symm hne) (a := (sessionPaths session).output) ?_ ?_
      · simp [SessionPaths.files]
      · rcases hfile with h | h | h <;> simp [h, SessionPaths.files]
    have hgone := hswept.gone (sessionPaths session').metadata
      ⟨session', metadata, hrecord', hexpired, hlisted, .inr (.inr rfl)⟩
    obtain ⟨n, hn, -⟩ := hrecord
    rw [hgone] at hn
    cases hn

/-- The files that an attachment shows are not its trace. -/
def Unlinked (session : SessionId) (s : Kernel) : Prop :=
  ∀ name, name = (sessionPaths session).metadata ∨ name = (sessionPaths session).output →
    ∀ n, s.dir name = some n → s.dir (sessionPaths session).trace ≠ some n

theorem ShownFrom.of_undisturbed {s s' : Kernel} {status : ProcessExit} {lines : List Bytes}
    (hlinks : Unlinked session s) (hundisturbed : Undisturbed session s s')
    (h : ShownFrom R session s' status lines) : ShownFrom R session s status lines := by
  obtain ⟨id, startedAt, finishedAt, exit, outputBytes, truncated, output, hrecord, houtput,
    hrest⟩ := h
  have hsame : ∀ name, name = (sessionPaths session).metadata ∨
      name = (sessionPaths session).output → s'.content name = s.content name :=
    fun name hname => hundisturbed.content (hlinks name hname)
  refine ⟨id, startedAt, finishedAt, exit, outputBytes, truncated, output,
    hrecord.of_content (hsame _ (.inl rfl)).symm, ?_, hrest⟩
  rw [StoredOutput, ← hsame _ (.inr rfl)]
  exact houtput

/-- What one registry of the user shows, another shows too. -/
theorem ShownFrom.of_user {R' : Registry} {serde : Serde} {s : Kernel} {status : ProcessExit}
    {lines : List Bytes} (hR : R.Of serde self) (hR' : R'.Of serde self)
    (h : ShownFrom R' session s status lines) : ShownFrom R session s status lines := by
  have huid : R'.uid = R.uid := hR'.1.trans hR.1.symm
  have hserde : R'.serde = R.serde := hR'.2.trans hR.2.symm
  unfold ShownFrom StoredOutput HasRecord at h ⊢
  rwa [huid, hserde] at h

/-- A session is shown by its runner, or as it is stored. -/
theorem wp_attach_shows (hF : F.Honest) {serde : Serde} {enabled : Bool} (hR : R.Of serde self)
    (hlinks : Unlinked session (after i s₀ log)) :
    (solo i s₀ F fun _ => True).wp () (attach serde self session enabled).run
      (fun r log' => ∀ status, r = .ok status →
        (∃ stream, ⟨Call.socket (.connect (sessionPaths session).socket), .ok stream⟩ ∈ log') ∨
          ∃ lines, shown log' = shown log ++ lines ∧
            ShownFrom R session (after i s₀ log) status lines) log := by
  have hopens : Only Mute (openRegistry serde self) :=
    (Surface.yields_openRegistry mute_of_opens).only
  refine wp_seq _ (wp_grows hopens (wp_openRegistry unobserved_true hF))
    (fun R' log₁ h₁ => ?_) (by rintro error _ - _ ⟨⟩)
  obtain ⟨⟨hR', hswept⟩, hgrew₁⟩ := h₁
  obtain ⟨now, names, -, -, -, hswept⟩ := (hswept R hR).swept R' rfl
  replace hR' := hR' R' rfl
  -- what is removed leads to nothing any more
  have hlinks₁ : Unlinked session (after i s₀ log₁) := by
    intro name hname n hn htrace
    have hback : ∀ {name' : Name} {m : Nat}, (after i s₀ log₁).dir name' = some m →
        (after i s₀ log).dir name' = some m := by
      intro name' m hm
      obtain hkept | ⟨-, hgone⟩ := hswept.pruned.dir name'
      · rwa [hkept] at hm
      · rw [hgone] at hm
        cases hm
    exact hlinks name hname n (hback hn) (hback htrace)
  refine wp_seq _ wp_attachmentTrace (fun trace log₂ h₂ => ?_) (by rintro error _ - _ ⟨⟩)
  refine wp_lift_bind.mpr (wp_mono ?_ (wp_line (h₂.2 trace rfl)
    fun h => within_traceEvent h "attachment_process_started"))
  intro trace' log₃ h₃
  have hconnect : Only Mute (R'.connect session) := Surface.only_connect mute_of_connects
  refine wp_attempt_bind.mpr (wp_mono ?_ (wp_grows hconnect (wp_connect unobserved_true hF)))
  rintro (error | stream) log₄ ⟨h₄, hgrew₄⟩
  · have hcalm₄ : Calm session i s₀ log₃ log₄ := ⟨.of_pruned h₄.pruned, shown_grew hgrew₄⟩
    refine wp_lift_bind.mpr (wp_mono ?_ (wp_line (h₃.1.of_same hcalm₄.undisturbed.dir rfl)
      fun h => within_traceIoError h "runner_socket_connect_failed" error))
    intro trace'' log₅ h₅
    have hcalm₅ := h₂.1.trans (h₃.2.trans (hcalm₄.trans h₅.2))
    have hread : Only Mute (R'.readMetadata session) := Surface.only_readMetadata mute_of_looks
    refine wp_io_bind.mpr (wp_mono ?_ (wp_grows hread (wp_readMetadata unobserved_true hF)))
    rintro (error' | _ | metadata) log₆ ⟨⟨hsame, hreads⟩, hgrew₆⟩
    · exact wp_ret.mpr (by rintro _ ⟨⟩)
    · exact wp_ret.mpr (by rintro _ ⟨⟩)
    cases metadata with
    | live => exact wp_ret.mpr (by rintro _ ⟨⟩)
    | completed id startedAt finishedAt exit outputBytes truncated =>
      refine wp_seq _ (wp_replayCompleted hF) (fun status log₇ h₇ => ?_) (by rintro error _ - _ ⟨⟩)
      obtain ⟨hstatus, output, hstored, hshown⟩ := h₇ status rfl
      have hfrom : ShownFrom R' session (after i s₀ log₅) status
          (replayLines truncated output status) :=
        ⟨id, startedAt, finishedAt, exit, outputBytes, truncated, output, hreads.found _ rfl,
          hsame ▸ hstored, hstatus, rfl⟩
      replace hfrom := ((hfrom.of_undisturbed hlinks₁ hcalm₅.undisturbed).of_user hR hR').of_swept
        hswept
      have htrace : TakesTrace Mute trace'' :=
        ⟨by rintro _ ⟨⟩, fun _ _ _ => by rintro _ ⟨⟩⟩
      have hexit : (traceProcessExit self trace'' "completed_session_replayed" status).Within
          (fun _ _ => True) Mute (SameFile trace'') := within_traceProcessExit htrace _ status
      refine wp_lift_bind.mpr (wp_mono ?_ (wp_grows hexit (wp_anything _)))
      rintro _ log₈ ⟨-, hgrew₈⟩
      refine wp_ret.mpr ?_
      rintro _ ⟨⟩
      refine .inr ⟨_, ?_, hfrom⟩
      rw [shown_grew hgrew₈, hshown, shown_grew hgrew₆, hcalm₅.shown, shown_grew hgrew₁]
  · refine wp_mono (fun r log' h status _ => .inl ⟨stream, h.2.subset (h₄.connected stream rfl)⟩)
      (wp_extends (wp_anything _))

end Alone

/-! ## What a completion leaves -/

theorem length_of_mem_files {session : SessionId} {name : Name}
    (h : name ∈ (sessionPaths session).files) : 36 ≤ name.length ∧ name.length ≤ 38 := by
  have hsuffix : ∀ suffix ∈ [ascii ".sock", ascii ".json", ascii ".lock", ascii ".out",
      ascii ".trace"], 4 ≤ suffix.length ∧ suffix.length ≤ 6 := by decide
  have hname : ∃ suffix ∈ [ascii ".sock", ascii ".json", ascii ".lock", ascii ".out",
      ascii ".trace"], name = session.toText ++ suffix := by
    simpa [SessionPaths.files, sessionPaths] using h
  obtain ⟨suffix, hmem, rfl⟩ := hname
  have hlength := hsuffix suffix hmem
  rw [List.length_append, session.length_toText]
  omega

/-- No file of a session has the name of a temporary one. -/
theorem ne_temporaryName {session : SessionId} {name name' : Name} {pid : UInt32}
    (h : name ∈ (sessionPaths session).files) (h' : name' ∈ (sessionPaths session).files) :
    name ≠ temporaryName name' pid := by
  intro heq
  have hlong := (length_of_mem_files h).2
  have hshort := (length_of_mem_files h').1
  have hdot : (ascii ".").length = 1 := by decide
  have htmp : (ascii ".tmp.").length = 5 := by decide
  rw [heq, temporaryName, List.length_append, List.length_append, List.length_append, hdot,
    htmp] at hlong
  omega

theorem metadata_ne_output {session : SessionId} :
    (sessionPaths session).metadata ≠ (sessionPaths session).output := by
  simp [sessionPaths]
  decide

section completion

variable {ctx : RunnerContext} {st : LoopState} {exit : ProcessExit} {i : Proc} {s₀ s : Kernel}
  {log : RunnerLog} {progress : Progress}

/-- The record and the output are stored as far as the completion has come. -/
theorem Completing.stored (h : Completing ctx st exit i s₀ progress log s)
    (hpaths : ctx.files.paths = sessionPaths ctx.session) {name : Name}
    (hname : name = (sessionPaths ctx.session).metadata ∨ name = (sessionPaths ctx.session).output) :
    s.content name = progress.contents ctx st exit i s₀ name := by
  have hmem : name ∈ (sessionPaths ctx.session).files := by
    rcases hname with rfl | rfl <;> simp [SessionPaths.files]
  have htransient : ¬ Transient ctx name := by
    unfold Transient
    rw [hpaths]
    rintro (h | h)
    · exact ne_temporaryName hmem (by simp [SessionPaths.files]) h
    · exact ne_temporaryName hmem (by simp [SessionPaths.files]) h
  have hlive : ¬ LiveEntry ctx name := by
    have hnodup := sessionPaths_nodup ctx.session
    unfold LiveEntry
    rw [hpaths]
    simp only [List.nodup_cons, List.mem_cons, List.not_mem_nil, not_or] at hnodup
    rintro (h | h) <;> rcases hname with rfl | rfl <;> simp_all
  exact (h.stores.content name htransient).resolve_right fun hgone => hlive hgone.1

/-- Before the record is replaced it is the one before. -/
theorem Completing.unrecorded (h : Completing ctx st exit i s₀ progress log s)
    (hpaths : ctx.files.paths = sessionPaths ctx.session) (hprogress : ¬ progress.IsRecorded) :
    s.content (sessionPaths ctx.session).metadata =
      s₀.content (sessionPaths ctx.session).metadata := by
  rw [h.stored hpaths (.inl rfl)]
  cases progress with
  | begun => rfl
  | stored => rw [Progress.contents, hpaths, update_of_ne metadata_ne_output]
  | recorded => exact absurd trivial hprogress

end completion

/-- **What an attachment shows is what the runner has completed.** A runner completes a session whose
record is live, alone, whichever calls fail, and returns or is killed at any moment. Later the
record and the output are still stored as it left them, whatever has become of the rest, and
somebody attaches to the session, alone. If the attachment returns an exit without having reached a
runner, then it is the exit of the session, and what was shown is the marker when the tail is
truncated, all of the tail, and the exit. -/
theorem completed_replayed (ctx : RunnerContext) (st : LoopState) (exit : ProcessExit)
    (hpaths : ctx.files.paths = sessionPaths ctx.session) (i j : Proc) {s₀ s₁ : Kernel}
    {F F' : Faults} (hF' : F'.Honest) (hused : s₀.Used)
    (hlive : ∀ metadata, HasRecord ctx.registry s₀ ctx.session metadata →
      metadata.isCompleted = false)
    {log₁ : RunnerLog} {p₁ : Prog (Except IoError Unit)}
    (hcomplete : Runs (alone i s₀ F) (ctx.completeSession st exit).run log₁ p₁)
    (hkept : ∀ name, name = (sessionPaths ctx.session).metadata ∨
      name = (sessionPaths ctx.session).output → s₁.content name = (after i s₀ log₁).content name)
    (hlinks : Alone.Unlinked ctx.session s₁) (process : Self)
    (hprocess : process.uid = ctx.registry.uid) (enabled : Bool) {log₂ : RunnerLog}
    {status : ProcessExit}
    (hattach : Runs (alone j s₁ F')
      (attach ctx.registry.serde process ctx.session enabled).run log₂ (.ret (.ok status)))
    (hunreached : ∀ stream, ⟨Call.socket (.connect (sessionPaths ctx.session).socket), .ok stream⟩
      ∉ log₂) :
    status = exit ∧
      shown log₂ = Alone.replayLines st.tail.isTruncated (some st.tail.snapshot) exit := by
  obtain ⟨progress, hcompleting, -⟩ := completion_atomic ctx st exit i s₀ F hused hcomplete
  have hshows := (log_sound trivial (Alone.wp_attach_shows hF' ⟨hprocess.symm, rfl⟩ hlinks)
    hattach).2 _ rfl status rfl
  obtain ⟨stream, hconnected⟩ | ⟨lines, hshown, hfrom⟩ := hshows
  · exact absurd hconnected (hunreached stream)
  obtain ⟨id, startedAt, finishedAt, exit', outputBytes, truncated, output, hrecord, houtput,
    rfl, rfl⟩ := hfrom
  replace hrecord := hrecord.of_content (hkept _ (.inl rfl)).symm
  -- until the record is replaced it is live, and a live record is not shown
  cases hprogress : progress with
  | begun =>
    subst hprogress
    cases hlive _ (hrecord.of_content (hcompleting.unrecorded hpaths not_false).symm)
  | stored =>
    subst hprogress
    cases hlive _ (hrecord.of_content (hcompleting.unrecorded hpaths not_false).symm)
  | recorded finished =>
    subst hprogress
    -- the record is the one that was written, so it is of the exit and of the tail
    obtain ⟨bytes, hbytes, -, hparsed, -⟩ := hasRecord_iff_content.mp hrecord
    rw [hcompleting.stored hpaths (.inl rfl), Progress.contents, hpaths, update_self,
      Option.some.injEq] at hbytes
    have htext : ctx.registry.serde.toVec (ctx.completedMetadata st finished exit) = bytes :=
      congrArg Content.bytes hbytes
    rw [← htext, ctx.registry.serde.fromSlice_toVec, Option.some.injEq] at hparsed
    obtain ⟨-, -, -, hexit, -, htruncated⟩ := SessionMetadata.completed.inj hparsed
    have hstored : some (ownFile i s₀ st.tail.snapshot) =
        output.map fun bytes => ⟨.regular, ctx.registry.uid, 0o600, bytes⟩ := by
      rw [← houtput, after_nil, hkept _ (.inr rfl), hcompleting.stored hpaths (.inr rfl),
        Progress.contents, hpaths, update_of_ne metadata_ne_output.symm, update_self]
    obtain ⟨shownBytes, rfl, hfile⟩ := Option.map_eq_some_iff.mp hstored.symm
    have hsnapshot : shownBytes = st.tail.snapshot := congrArg Content.bytes hfile
    have hstatus : exit'.toProcessExit = exit := by
      rw [← hexit]
      cases exit <;> rfl
    refine ⟨hstatus, ?_⟩
    rw [hshown, hstatus, hsnapshot, htruncated]
    rfl

/-- Somebody who joins a session. -/
def joiner : Self := ⟨9, 0, some (ascii "/root"), none, 4⟩

/-- A session is completed, and then somebody joins it. -/
theorem replayed_plays : ((exampleContext.completeSession parkedState (.code 3)).run.run
    (Kernel.Stage.outside (.runner 0))
    (.stocked 0 100 livingFiles, livingFiles.map Prod.fst)).any (fun completed =>
      (completed.2.1.response 0).isSome &&
        (completed.2.1.dir (sessionPaths exampleContext.session).trace).isNone &&
          ((attach jsonSerde joiner exampleContext.session false).run.run
            (Kernel.Stage.recorded (.caller 0)) (completed.2, [])).any (fun joined =>
              joined.1.isOk && joined.2.2.all fun e =>
                decide (e.op ≠ .socket (.connect (sessionPaths exampleContext.session).socket))))
      = true := by decide +kernel

theorem completed_replayed_bye : ∃ s₁ log,
    Runs (alone (.caller 0) s₁ .none) (attach jsonSerde joiner exampleContext.session false).run log
        (.ret (.ok (.code 3))) ∧
      shown log = [ascii "bye", completionLine (.code 3)] := by
  obtain ⟨⟨r, s₁, names⟩, hplay, hr⟩ := (Option.any_eq_true _ _).mp replayed_plays
  simp only [Bool.and_eq_true] at hr
  obtain ⟨⟨hresponse, htrace⟩, hjoin⟩ := hr
  obtain ⟨⟨r', stage, log₂⟩, hplay', hr'⟩ := (Option.any_eq_true _ _).mp hjoin
  simp only [Bool.and_eq_true, List.all_eq_true, decide_eq_true_eq] at hr'
  obtain ⟨hok, hunreached⟩ := hr'
  obtain ⟨log₁, hcomplete, hstate, hcovers⟩ := runs_alone Kernel.stocked_covers hplay
  have hcovers' : Kernel.Stage.Covers (s₁, names) (.caller 0) := by
    refine ⟨hcovers.entries, fun n h => (by cases h), ?_⟩
    rintro n ⟨⟩
    exact hresponse
  obtain ⟨hattach, -⟩ := runs_recorded hcovers' hplay'
  obtain ⟨status, rfl⟩ : ∃ status, r' = .ok status := by
    cases r' with
    | error error => cases hok
    | ok status => exact ⟨status, rfl⟩
  have hrecord : HasRecord exampleContext.registry (.stocked 0 100 livingFiles)
      exampleContext.session (exampleContext.liveMetadata false) :=
    Kernel.stocked_record (by decide) rfl rfl List.mem_cons_self
  have hlive : ∀ metadata, HasRecord exampleContext.registry (.stocked 0 100 livingFiles)
      exampleContext.session metadata → metadata.isCompleted = false := by
    intro metadata hmetadata
    rw [hmetadata.unique hrecord]
    rfl
  have hlinks : Alone.Unlinked exampleContext.session s₁ := by
    intro name _ n _ hn
    rw [Option.isNone_iff_eq_none.mp htrace] at hn
    cases hn
  obtain ⟨rfl, hshown⟩ := completed_replayed exampleContext parkedState (.code 3) rfl (.runner 0)
    (.caller 0) Faults.honest_none Kernel.stocked_used hlive hcomplete
    (fun name _ => by rw [hstate]) hlinks joiner rfl false hattach
    fun stream hstream => hunreached _ hstream rfl
  exact ⟨s₁, log₂, hattach, hshown⟩

end AfkCli
