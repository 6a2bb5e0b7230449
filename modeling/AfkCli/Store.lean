import AfkCli.Completion
import AfkCli.Listing
import AfkCli.Records
import AfkCli.Runner
import AfkCli.Surface

/-!
# Completing a session

To the other processes a directory is a map from names to what is stored under them. Replacing a
file changes this map in one step, and in no other way than under its name and the name of a
temporary file, wherever the process is killed. A session is completed by two such steps, first its
output and then its record, so whoever reads the record of a session finds the one before, or the
new one and all of the output.

## Main definitions

* `Kernel.content`: what is stored under a name
* `Stores`: what a directory stores, some names apart
* `Progress`: how far a completion has come

## Main results

* `wp_replace`: replacing a file is one step
* `completion_atomic`: a completion is two steps, wherever it is cut off
-/

namespace AfkCli

open Interaction Discipline Function

/-! ## What is stored -/

/-- What is stored under a name. -/
structure Content where
  kind : FileKind
  uid : Nat
  mode : Nat
  bytes : Bytes
  deriving DecidableEq

def Inode.content (node : Inode) : Content := ⟨node.kind, node.uid, node.mode, node.bytes⟩

namespace Kernel

def content (s : Kernel) (name : Name) : Option Content := (s.lookup name).map Inode.content

/-- Every entry names an inode in use. -/
def Used (s : Kernel) : Prop := ∀ name n, s.dir name = some n → n < s.fresh

variable {s s' : Kernel} {name : Name} {n : Nat}

theorem content_some (h : s.dir name = some n) : s.content name = some (s.inode n).content := by
  rw [content, lookup, h]
  rfl

theorem content_none (h : s.dir name = none) : s.content name = none := by
  rw [content, lookup, h]
  rfl

/-- What is stored is there under the same name. -/
theorem content_congr (hdir : s'.dir name = s.dir name)
    (hinode : ∀ n, s.dir name = some n → (s'.inode n).content = (s.inode n).content) :
    s'.content name = s.content name := by
  cases hname : s.dir name with
  | none => rw [content_none hname, content_none (hdir.trans hname)]
  | some n => rw [content_some hname, content_some (hdir.trans hname), hinode n hname]

end Kernel

/-- Where not `apart`, the directory stores `contents`; of the names in `gone` it may store nothing. -/
structure Stores (apart gone : Name → Prop) (contents : Name → Option Content) (s₀ s : Kernel) :
    Prop where
  content : ∀ name, ¬ apart name →
    s.content name = contents name ∨ gone name ∧ s.content name = none
  used : s.Used
  uid : s.uid = s₀.uid
  umask : s.umask = s₀.umask

namespace Stores

variable {apart gone : Name → Prop} {contents : Name → Option Content} {s₀ s s' : Kernel}

theorem refl (hused : s₀.Used) : Stores apart gone s₀.content s₀ s₀ :=
  ⟨fun _ _ => .inl rfl, hused, rfl, rfl⟩

/-- What is stored stays where entries and contents do. -/
theorem frame (h : Stores apart gone contents s₀ s) (hdir : s'.dir = s.dir)
    (hinode : ∀ n, (s'.inode n).content = (s.inode n).content) (hfresh : s.fresh ≤ s'.fresh)
    (huid : s'.uid = s.uid) (humask : s'.umask = s.umask) : Stores apart gone contents s₀ s' where
  content name hname := by
    rw [Kernel.content_congr (congrFun hdir name) fun n _ => hinode n]
    exact h.content name hname
  used name n hn := by
    rw [hdir] at hn
    exact Nat.lt_of_lt_of_le (h.used name n hn) hfresh
  uid := huid.trans h.uid
  umask := humask.trans h.umask

theorem of_pruned (h : Stores apart gone contents s₀ s) (hpruned : Pruned (fun _ => False) s s') :
    Stores apart gone contents s₀ s' :=
  h.frame (funext fun name => hpruned.keeps not_false) (fun n => by rw [hpruned.inode])
    hpruned.fresh_le hpruned.uid hpruned.umask

/-- The calls that leave all files as they are. -/
def Quiet (op : Call) : Prop :=
  op.isSilent = true ∨ (∃ site, op = .process (.now site)) ∨ ∃ fd, op = .socket (.closeListener fd)

theorem next (h : Stores apart gone contents s₀ s) {i : Proc} {op : Call} (hop : Quiet op)
    (r : op.Answer) : Stores apart gone contents s₀ (s.next i op r) := by
  rcases hop with hsilent | ⟨site, rfl⟩ | ⟨fd, rfl⟩
  · exact h.of_pruned (Pruned.next r hsilent)
  · rcases r with error | now
    · exact h
    · exact h.frame rfl (fun _ => rfl) (Nat.le_refl _) rfl rfl
  · refine h.frame rfl (fun n => ?_) (Nat.le_refl _) rfl rfl
    show (update s.inode fd { s.inode fd with listener := .closed } n).content = _
    by_cases hn : n = fd
    · rw [hn, update_self]
      rfl
    · rw [update_of_ne hn]

/-- An entry that does not count or may be gone is removed, or is not. -/
theorem remove (h : Stores apart gone contents s₀ s) {i : Proc} {F : Faults} {site : Site}
    {name : Name} (hname : apart name ∨ gone name) {r : Except IoError Unit}
    (hr : s.Admits i F (.file (.removeFile site name)) r) :
    Stores apart gone contents s₀ (s.next i (.file (.removeFile site name)) r) := by
  obtain ⟨error, -, hnext, -⟩ | ⟨n, hn, -, hnext⟩ := hr.removeFile
  · rw [hnext]
    exact h
  · rw [hnext]
    refine ⟨fun other hother => ?_, fun other m hm => ?_, h.uid, h.umask⟩
    · by_cases hsame : other = name
      · subst hsame
        exact .inr ⟨hname.resolve_left hother, Kernel.content_none (update_self ..)⟩
      · have hkept : (s.unlink name).content other = s.content other :=
          Kernel.content_congr (update_of_ne hsame _ _) fun _ _ => rfl
        rw [hkept]
        exact h.content other hother
    · refine h.used other m ?_
      have hentry : update s.dir name none other = some m := hm
      by_cases hsame : other = name
      · rw [hsame, update_self] at hentry
        cases hentry
      · rwa [update_of_ne hsame] at hentry

/-- A temporary file is nothing that counts. -/
theorem filled (h : Stores apart gone contents s₀ s) {i : Proc} {temporary : Name} {bytes : Bytes}
    (htemporary : apart temporary) (hfilled : Alone.Filled i temporary bytes s s') :
    Stores apart gone contents s₀ s' where
  content name hname := by
    have hne : name ≠ temporary := fun he => hname (he ▸ htemporary)
    have hkept : s'.content name = s.content name := by
      apply Kernel.content_congr
      · rw [hfilled.dir, update_of_ne hne]
      · intro n hn
        rw [hfilled.beside.inode n (Nat.ne_of_lt (h.used name n hn))]
    rw [hkept]
    exact h.content name hname
  used name n hn := by
    rw [hfilled.dir] at hn
    rw [hfilled.fresh]
    by_cases hname : name = temporary
    · rw [hname, update_self] at hn
      exact (Option.some.inj hn).symm ▸ Nat.lt_succ_self _
    · rw [update_of_ne hname] at hn
      exact Nat.lt_succ_of_lt (h.used name n hn)
  uid := hfilled.beside.uid.trans h.uid
  umask := hfilled.beside.umask.trans h.umask

/-- The temporary file takes its place. -/
theorem placed (h : Stores apart gone contents s₀ s) {i : Proc} {temporary name : Name}
    {bytes : Bytes} (htemporary : apart temporary)
    (hfilled : Alone.Filled i temporary bytes s s') :
    Stores apart gone
      (update contents name (some ⟨.regular, s₀.uid, s₀.masked i 0o600, bytes⟩)) s₀
      { s' with dir := update (update s'.dir temporary none) name (some s.fresh) } where
  content other hother := by
    by_cases hname : other = name
    · left
      rw [hname, update_self, Kernel.content_some (n := s.fresh) (update_self ..)]
      show some (s'.inode s.fresh).content = _
      rw [hfilled.node]
      show some (Content.mk .regular s.uid (s.masked i 0o600) bytes) = _
      rw [Kernel.masked, Kernel.masked, h.uid, h.umask]
    · have hne : other ≠ temporary := fun he => hother (he ▸ htemporary)
      rw [update_of_ne hname]
      have hkept : Kernel.content
          { s' with dir := update (update s'.dir temporary none) name (some s.fresh) } other =
            s'.content other :=
        Kernel.content_congr ((update_of_ne hname _ _).trans (update_of_ne hne _ _)) fun _ _ => rfl
      rw [hkept]
      exact (h.filled htemporary hfilled).content other hother
  used other n hn := by
    have hentry : update (update s'.dir temporary none) name (some s.fresh) other = some n := hn
    show n < s'.fresh
    by_cases hname : other = name
    · rw [hname, update_self] at hentry
      rw [← Option.some.inj hentry, hfilled.fresh]
      exact Nat.lt_succ_self _
    · rw [update_of_ne hname] at hentry
      by_cases hother : other = temporary
      · rw [hother, update_self] at hentry
        cases hentry
      · rw [update_of_ne hother] at hentry
        exact (h.filled htemporary hfilled).used other n hentry
  uid := hfilled.beside.uid.trans h.uid
  umask := hfilled.beside.umask.trans h.umask

end Stores

/-! ## Replacing a file -/

section rules

variable {i : Proc} {s₀ : Kernel} {F : Faults} {Good : RunnerLog → Prop} {log : RunnerLog}
  {apart gone : Name → Prop} {contents : Name → Option Content}

/-- The logs after which the directory stores one of two things. -/
abbrev StoresAfter (apart gone : Name → Prop) (contents : Name → Option Content) (i : Proc)
    (s₀ : Kernel) (log : RunnerLog) : Prop :=
  Stores apart gone contents s₀ (after i s₀ log)

/-- A call that failed has changed nothing. -/
theorem storesAfter_failed {op : Call} {r : op.Answer}
    (h : StoresAfter apart gone contents i s₀ log)
    (hnext : (after i s₀ log).next i op r = after i s₀ log) :
    StoresAfter apart gone contents i s₀ (⟨op, r⟩ :: log) := by
  rw [StoresAfter, after_cons, hnext]
  exact h

/-- What replacing a file comes to. -/
def replaced (contents : Name → Option Content) (name : Name) (content : Content)
    (r : Except IoError Unit) : Name → Option Content :=
  match r with
  | .ok _ => update contents name (some content)
  | .error _ => contents

/-- The calls of `atomic_write` on its temporary file, and the rename. -/
theorem wp_place {name temporary : Name} {bytes : Bytes} {s : Kernel} {log₀ : RunnerLog}
    (htemporary : apart temporary) (hs : Stores apart gone contents s₀ s) (hlog : log₀ <:+ log)
    (hbefore : ∀ log', log₀ <:+ log' → StoresAfter apart gone contents i s₀ log' → Good log')
    (hafter : ∀ log', log₀ <:+ log' → StoresAfter apart gone
      (update contents name (some ⟨.regular, s₀.uid, s₀.masked i 0o600, bytes⟩)) i s₀ log' →
        Good log')
    (h : Alone.Filled i temporary [] s (after i s₀ log)) :
    (keeping (alone i s₀ F) Good).wp () (ExceptT.run (do
        ask (file (.writeAll .atomicWrite s.fresh bytes))
        ask (file (.syncAll s.fresh))
        ask (file (.rename temporary name)) : Io Unit))
      (fun r log' => StoresAfter apart gone
        (replaced contents name ⟨.regular, s₀.uid, s₀.masked i 0o600, bytes⟩ r) i s₀ log') log := by
  have hsame : ∀ {log' : RunnerLog} {bytes' : Bytes}, Alone.Filled i temporary bytes' s
      (after i s₀ log') → StoresAfter apart gone contents i s₀ log' :=
    fun hfilled => hs.filled htemporary hfilled
  -- until the rename only the temporary file differs, so the directory stores what it did
  refine wp_io_bind.mpr (wp_recorded fun r hr => ?_)
  obtain ⟨error, rfl, hnext, -⟩ | ⟨rfl, hnext⟩ := hr.writeAll
  · have hkept := storesAfter_failed (hsame h) hnext
    exact ⟨hbefore _ (hlog.trans (List.suffix_cons _ _)) hkept, hkept⟩
  have hwritten : Alone.Filled i temporary bytes s
      (after i s₀ (⟨.file (.writeAll .atomicWrite s.fresh bytes), .ok ()⟩ :: log)) := by
    rw [after_cons, hnext]
    refine ⟨h.beside.trans .modify, h.dir, h.fresh, ?_⟩
    show update _ _ _ _ = _
    rw [update_self, h.node]
    rfl
  have hlog' := hlog.trans (List.suffix_cons
    (⟨.file (.writeAll .atomicWrite s.fresh bytes), .ok ()⟩ : RunnerEvent) log)
  refine ⟨hbefore _ hlog' (hsame hwritten), wp_io_bind.mpr (wp_recorded fun r' hr' => ?_)⟩
  obtain ⟨hsynced, hcause⟩ := hr'.syncAll
  have hfilled : Alone.Filled i temporary bytes s (after i s₀ (⟨.file (.syncAll s.fresh), r'⟩ ::
      ⟨.file (.writeAll .atomicWrite s.fresh bytes), .ok ()⟩ :: log)) := by
    rw [after_cons, hsynced]
    exact hwritten
  have hlog'' := hlog'.trans (List.suffix_cons
    (⟨.file (.syncAll s.fresh), r'⟩ : RunnerEvent) _)
  refine ⟨hbefore _ hlog'' (hsame hfilled), ?_⟩
  obtain ⟨error, rfl, -⟩ | rfl := hcause
  · exact hsame hfilled
  -- the rename is the step at which the new file appears
  refine wp_recorded fun r'' hr'' => ?_
  obtain ⟨error, rfl, hnext'', -⟩ | ⟨n, hn, rfl, hnext''⟩ := hr''.rename
  · have hkept := storesAfter_failed (hsame hfilled) hnext''
    exact ⟨hbefore _ (hlog''.trans (List.suffix_cons _ _)) hkept, hkept⟩
  · rw [hfilled.dir, update_self, Option.some.injEq] at hn
    subst hn
    have hplaced : StoresAfter apart gone
        (update contents name (some ⟨.regular, s₀.uid, s₀.masked i 0o600, bytes⟩)) i s₀
          (⟨.file (.rename temporary name), .ok ()⟩ :: ⟨.file (.syncAll s.fresh), .ok ()⟩ ::
            ⟨.file (.writeAll .atomicWrite s.fresh bytes), .ok ()⟩ :: log) := by
      rw [StoresAfter, after_cons, hnext'']
      exact hs.placed htemporary hfilled
    exact ⟨hafter _ (hlog''.trans (List.suffix_cons _ _)) hplaced, hplaced⟩

/-- **Replacing a file is one step**: whenever the process is killed the directory stores what it
stored before, or the new file under its name. -/
theorem wp_replace {self : Self} {name : Name} {bytes : Bytes}
    (htemporary : apart (temporaryName name self.pid))
    (hbefore : ∀ log', log <:+ log' → StoresAfter apart gone contents i s₀ log' → Good log')
    (hafter : ∀ log', log <:+ log' → StoresAfter apart gone
      (update contents name (some ⟨.regular, s₀.uid, s₀.masked i 0o600, bytes⟩)) i s₀ log' →
        Good log')
    (h : StoresAfter apart gone contents i s₀ log) :
    (keeping (alone i s₀ F) Good).wp () (atomicWrite self name bytes).run
      (fun r log' => StoresAfter apart gone
        (replaced contents name ⟨.regular, s₀.uid, s₀.masked i 0o600, bytes⟩ r) i s₀ log') log := by
  unfold atomicWrite
  refine wp_io_bind.mpr (wp_recorded fun r hr => ?_)
  obtain ⟨error, rfl, hnext, -⟩ | ⟨hnone, rfl, hnext⟩ := hr.createNew
  · have hkept := storesAfter_failed h hnext
    exact ⟨hbefore _ (List.suffix_cons _ _) hkept, hkept⟩
  have hcreated : Alone.Filled i (temporaryName name self.pid) [] (after i s₀ log)
      (after i s₀ (⟨.file (.createNew (temporaryName name self.pid) 0o600),
        .ok (after i s₀ log).fresh⟩ :: log)) := by
    rw [after_cons, hnext]
    exact ⟨.create, rfl, rfl, update_self ..⟩
  refine ⟨hbefore _ (List.suffix_cons _ _) (h.filled htemporary hcreated), wp_attempt_bind.mpr
    (wp_mono ?_ (wp_extends (wp_place htemporary h (List.suffix_cons _ _) hbefore hafter hcreated)))⟩
  rintro (error | _) log₁ ⟨hstored, hextends⟩
  · -- the temporary file is removed, if that can be done
    refine wp_ignore_bind.mpr (wp_recorded fun r' hr' => ?_)
    have hkept := Stores.remove hstored (.inl htemporary) hr'
    have hlog' := (List.suffix_cons _ _).trans (hextends.trans
      (List.suffix_cons (⟨.file (.removeFile .atomicWrite _), r'⟩ : RunnerEvent) _))
    exact ⟨hbefore _ hlog' hkept, wp_ret.mpr hkept⟩
  · exact wp_ret.mpr hstored

end rules

/-! ## Completing a session -/

/-- How far a completion has come. -/
inductive Progress
  | begun
  | stored
  | recorded (finishedAt : UInt64)

/-- The record has been replaced. -/
def Progress.IsRecorded : Progress → Prop
  | recorded _ => True
  | _ => False

section completion

variable (ctx : RunnerContext) (st : LoopState) (exit : ProcessExit) (i : Proc) (s₀ : Kernel)

/-- A file of the runner. -/
def ownFile (bytes : Bytes) : Content := ⟨.regular, s₀.uid, s₀.masked i 0o600, bytes⟩

/-- What the directory stores: first the output is replaced, and then the record. -/
def Progress.contents : Progress → Name → Option Content
  | begun => s₀.content
  | stored => update s₀.content ctx.files.paths.output (some (ownFile i s₀ st.tail.snapshot))
  | recorded finishedAt =>
    update (update s₀.content ctx.files.paths.output (some (ownFile i s₀ st.tail.snapshot)))
      ctx.files.paths.metadata
      (some (ownFile i s₀ (ctx.registry.serde.toVec (ctx.completedMetadata st finishedAt exit))))

/-- The temporary files of a completion. -/
def Transient (name : Name) : Prop :=
  name = temporaryName ctx.files.paths.output ctx.self.pid ∨
    name = temporaryName ctx.files.paths.metadata ctx.self.pid

/-- The live files of the session. -/
def LiveEntry (name : Name) : Prop := name = ctx.files.paths.socket ∨ name = ctx.files.paths.lock

/-- The directory stores what it does at this point of a completion. -/
structure Completing (progress : Progress) (log : RunnerLog) (s : Kernel) : Prop where
  stores : Stores (Transient ctx) (LiveEntry ctx) (progress.contents ctx st exit i s₀) s₀ s
  clock : ∀ finishedAt, progress = .recorded finishedAt →
    ⟨Call.process (.now .completeSession), .ok finishedAt⟩ ∈ log

/-- What holds at every moment of a completion. -/
def CompletingAt (log : RunnerLog) : Prop :=
  ∃ progress, Completing ctx st exit i s₀ progress log (after i s₀ log)

variable {ctx st exit i s₀} {F : Faults} {log : RunnerLog} {progress : Progress}

abbrev CompletingAfter (ctx : RunnerContext) (st : LoopState) (exit : ProcessExit) (i : Proc)
    (s₀ : Kernel) (progress : Progress) (log : RunnerLog) : Prop :=
  Completing ctx st exit i s₀ progress log (after i s₀ log)

/-- Calls that leave all files as they are leave the completion where it is. -/
theorem wp_completing_idle {α : Type} {q : α → Prop}
    (h : CompletingAfter ctx st exit i s₀ progress log) {p : Prog α}
    (hp : p.Within (fun _ _ => True) Stores.Quiet q) :
    (keeping (alone i s₀ F) (CompletingAt ctx st exit i s₀)).wp () p
      (fun a log' => q a ∧ CompletingAfter ctx st exit i s₀ progress log') log := by
  refine wp_quiet (P := CompletingAfter ctx st exit i s₀ progress) hp ?_ h
  intro op r log' hop h
  have hnext : CompletingAfter ctx st exit i s₀ progress (⟨op, r⟩ :: log') :=
    ⟨h.stores.next hop r, fun t ht => List.mem_cons_of_mem _ (h.clock t ht)⟩
  exact ⟨⟨progress, hnext⟩, hnext⟩

/-- A live file is removed, or is not. -/
theorem wp_completing_remove {site : Site} {name : Name} (hname : LiveEntry ctx name)
    (h : CompletingAfter ctx st exit i s₀ progress log) :
    (keeping (alone i s₀ F) (CompletingAt ctx st exit i s₀)).wp ()
      (ignore (ask (file (.removeFile site name)))).run
      (fun r log' => r = .ok () ∧ CompletingAfter ctx st exit i s₀ progress log') log := by
  refine wp_bind.mpr (wp_recorded fun r hr => ?_)
  have hnext : CompletingAfter ctx st exit i s₀ progress
      (⟨.file (.removeFile site name), r⟩ :: log) :=
    ⟨h.stores.remove (.inr hname) hr, fun t ht => List.mem_cons_of_mem _ (h.clock t ht)⟩
  exact ⟨⟨progress, hnext⟩, wp_ret.mpr ⟨rfl, hnext⟩⟩

theorem wp_completing_drop (h : CompletingAfter ctx st exit i s₀ progress log) :
    (keeping (alone i s₀ F) (CompletingAt ctx st exit i s₀)).wp () ctx.files.drop.run
      (fun r log' => r = .ok () ∧ CompletingAfter ctx st exit i s₀ progress log') log := by
  have hfailed : ∀ {log' : RunnerLog} (error : IoError),
      (.error error : Except IoError Unit) = .ok () ∧
        CompletingAfter ctx st exit i s₀ progress log' → False := fun _ h => by cases h.1
  unfold SessionFiles.drop
  refine wp_seq _ (wp_completing_remove (.inl rfl) h) (fun _ log₁ h₁ => ?_)
    fun error _ h => (hfailed error h).elim
  refine wp_seq _ (wp_completing_remove (.inr rfl) h₁.2) (fun _ log₂ h₂ => ?_)
    fun error _ h => (hfailed error h).elim
  refine wp_bind.mpr (wp_mono ?_ (wp_completing_idle h₂.2
    (Calls.perform (.inr (.inr ⟨ctx.files.listener, rfl⟩)))))
  exact fun _ _ h => wp_ret.mpr ⟨rfl, h.2⟩

/-- Before the record is replaced its time has not been read. -/
theorem completing_of_stores (hprogress : ¬ progress.IsRecorded)
    (h : StoresAfter (Transient ctx) (LiveEntry ctx) (progress.contents ctx st exit i s₀) i s₀ log) :
    CompletingAfter ctx st exit i s₀ progress log := by
  refine ⟨h, ?_⟩
  rintro t rfl
  exact absurd trivial hprogress

/-- What writing the output and the record comes to. -/
def Written (ctx : RunnerContext) (st : LoopState) (exit : ProcessExit) (i : Proc) (s₀ : Kernel)
    (r : Except IoError Unit) (log : RunnerLog) : Prop :=
  ∃ progress, CompletingAfter ctx st exit i s₀ progress log ∧ (progress.IsRecorded ↔ r = .ok ())

theorem written_failed {error : IoError} (hprogress : ¬ progress.IsRecorded)
    (h : CompletingAfter ctx st exit i s₀ progress log) :
    Written ctx st exit i s₀ (.error error) log :=
  ⟨progress, h, iff_of_false hprogress fun h => by cases h⟩

theorem wp_completing_output (hused : s₀.Used) :
    (keeping (alone i s₀ F) (CompletingAt ctx st exit i s₀)).wp ()
      (Registry.writeOutput ctx.self ctx.files.paths st.tail.snapshot).run
      (fun r log' => ∃ progress, CompletingAfter ctx st exit i s₀ progress log' ∧
        ¬ progress.IsRecorded ∧ (r = .ok () → progress = .stored)) [] := by
  have hbegun : CompletingAfter ctx st exit i s₀ .begun [] :=
    completing_of_stores not_false (.refl hused)
  unfold Registry.writeOutput
  split
  · exact wp_ret.mpr ⟨.begun, hbegun, not_false, fun h => by cases h⟩
  · refine wp_mono ?_ (wp_replace (.inl rfl)
      (fun log' _ h => ⟨.begun, completing_of_stores not_false h⟩)
      (fun log' _ h => ⟨.stored, completing_of_stores not_false h⟩) hbegun.stores)
    rintro (error | _) log' h
    · exact ⟨.begun, completing_of_stores not_false h, not_false, fun h => by cases h⟩
    · exact ⟨.stored, completing_of_stores not_false h, not_false, fun _ => rfl⟩

/-- The output, and then the record. -/
theorem wp_completing_write (hused : s₀.Used) :
    (keeping (alone i s₀ F) (CompletingAt ctx st exit i s₀)).wp () (ExceptT.run (do
        Registry.writeOutput ctx.self ctx.files.paths st.tail.snapshot
        let finishedAt ← nowSeconds .completeSession
        ctx.registry.writeMetadata ctx.self ctx.files.paths
          (ctx.completedMetadata st finishedAt exit) : Io Unit))
      (Written ctx st exit i s₀) [] := by
  refine wp_seq _ (wp_completing_output hused) (fun _ log₁ h₁ => ?_)
    fun error log' ⟨progress, h, hprogress, _⟩ => written_failed hprogress h
  obtain ⟨_, h₁, -, hstored⟩ := h₁
  obtain rfl := hstored rfl
  -- the clock is read between the two files; without it there is no record
  refine wp_io_bind.mpr (wp_recorded fun r hr => ?_)
  have hclock : CompletingAfter ctx st exit i s₀ .stored
      (⟨.process (.now .completeSession), r⟩ :: log₁) :=
    completing_of_stores not_false (h₁.stores.next (.inr (.inl ⟨_, rfl⟩)) r)
  have hnot : ¬ Progress.stored.IsRecorded := not_false
  refine ⟨⟨.stored, hclock⟩, ?_⟩
  rcases r with error | finishedAt
  · exact wp_ret.mpr (written_failed hnot hclock)
  have hrecorded : ∀ {log' : RunnerLog},
      (⟨.process (.now .completeSession), .ok finishedAt⟩ :: log₁ : RunnerLog) <:+ log' →
        StoresAfter (Transient ctx) (LiveEntry ctx)
          (Progress.contents ctx st exit i s₀ (.recorded finishedAt)) i s₀ log' →
            CompletingAfter ctx st exit i s₀ (.recorded finishedAt) log' := by
    intro log' hlog h
    refine ⟨h, ?_⟩
    rintro _ ⟨⟩
    exact hlog.subset List.mem_cons_self
  show (keeping (alone i s₀ F) (CompletingAt ctx st exit i s₀)).wp ()
    (ctx.registry.writeMetadata _ _ _).run _ _
  unfold Registry.writeMetadata
  dsimp only
  split
  · exact wp_ret.mpr (written_failed hnot hclock)
  · refine wp_mono ?_ (wp_extends (wp_replace (.inr rfl)
      (fun log' _ h => ⟨.stored, completing_of_stores not_false h⟩)
      (fun log' hlog h => ⟨.recorded finishedAt, hrecorded hlog h⟩) hclock.stores))
    rintro (error | _) log' ⟨h, hlog⟩
    · exact written_failed hnot (completing_of_stores hnot h)
    · exact ⟨.recorded finishedAt, hrecorded hlog h, iff_of_true trivial rfl⟩

theorem wp_completing_session (hused : s₀.Used) :
    (keeping (alone i s₀ F) (CompletingAt ctx st exit i s₀)).wp () (ctx.completeSession st exit).run
      (Written ctx st exit i s₀) [] := by
  have hclose : ∀ stream, Stores.Quiet (.socket (.close stream)) := fun _ => .inl rfl
  unfold RunnerContext.completeSession
  refine wp_attempt_bind.mpr (wp_mono ?_ (wp_completing_write hused))
  rintro (error | _) log₁ ⟨progress, h₁, hresult⟩
  -- the connection is dropped without an exit, and the live files are given back
  · have hprogress : ¬ progress.IsRecorded := fun h => by cases hresult.mp h
    refine wp_lift_bind.mpr (wp_mono ?_
      (wp_completing_idle h₁ (Surface.calls_closeConnection hclose st.active)))
    rintro _ log₂ ⟨-, h₂⟩
    refine wp_seq _ (wp_completing_drop h₂) (fun _ log₃ h₃ => ?_) fun error' log₃ h₃ => ?_
    · exact wp_ret.mpr (written_failed hprogress h₃.2)
    · exact written_failed hprogress h₃.2
  -- what follows cannot fail, and touches neither file
  · have hprogress : progress.IsRecorded := hresult.mpr rfl
    have hwritten : ∀ {log' : RunnerLog}, CompletingAfter ctx st exit i s₀ progress log' →
        Written ctx st exit i s₀ (.ok ()) log' :=
      fun h => ⟨progress, h, iff_of_true hprogress rfl⟩
    have hremove : ∀ {log' : RunnerLog}, CompletingAfter ctx st exit i s₀ progress log' →
        (keeping (alone i s₀ F) (CompletingAt ctx st exit i s₀)).wp ()
          (Registry.removeLiveFiles ctx.files.paths).run
          (fun r log'' => r = .ok () ∧ CompletingAfter ctx st exit i s₀ progress log'') log' := by
      intro log' h
      unfold Registry.removeLiveFiles
      refine wp_seq _ (wp_completing_remove (.inl rfl) h) (fun _ log'' h' => ?_)
        fun error log'' h' => by cases h'.1
      exact wp_completing_remove (.inr rfl) h'.2
    refine wp_seq _ (hremove h₁) (fun _ log₂ h₂ => ?_) fun error log₂ h₂ => by cases h₂.1
    refine wp_seq _ (wp_completing_drop h₂.2) (fun _ log₃ h₃ => ?_)
      fun error log₃ h₃ => by cases h₃.1
    split
    · exact wp_ret.mpr (hwritten h₃.2)
    · rename_i connection _
      have hsends : (ctx.sendExit connection exit).run.Within (fun _ _ => True) Stores.Quiet
          (· = .ok ()) := by
        refine Surface.within_sendExit fun op hop => .inl ?_
        unfold Surface.Sends at hop
        split at hop
        · rfl
        · rfl
        · rfl
        · exact hop.elim
      refine wp_io_bind.mpr (wp_mono ?_ (wp_completing_idle h₃.2 hsends))
      rintro _ log₄ ⟨rfl, h₄⟩
      refine wp_lift.mpr (wp_mono ?_ (wp_completing_idle h₄ (Calls.perform (hclose _))))
      exact fun _ log₅ h₅ => hwritten h₅.2

end completion

/-- **A completion is two steps.** A session is completed on a system on which no other process
runs, whichever calls fail and wherever the runner is killed: but for its two temporary files the
directory stores what it did before, or that with the output replaced by the whole tail, or that
with the record replaced too, by one of the exit, at the time that the runner has read. The socket
and the lock may be gone; nothing else is. The completion succeeds exactly when the record was
replaced. -/
theorem completion_atomic (ctx : RunnerContext) (st : LoopState) (exit : ProcessExit) (i : Proc)
    (s₀ : Kernel) (F : Faults) (hused : s₀.Used) {log : RunnerLog}
    {p : Prog (Except IoError Unit)}
    (hrun : Runs (alone i s₀ F) (ctx.completeSession st exit).run log p) :
    ∃ progress, Completing ctx st exit i s₀ progress log (after i s₀ log) ∧
      ∀ r, p = .ret r → (progress.IsRecorded ↔ r = .ok ()) := by
  have hstart : CompletingAt ctx st exit i s₀ [] :=
    ⟨.begun, completing_of_stores not_false (.refl hused)⟩
  obtain ⟨⟨progress, h⟩, hreturns⟩ := log_sound hstart (wp_completing_session hused) hrun
  by_cases hreturned : ∃ r, p = .ret r
  · obtain ⟨r, rfl⟩ := hreturned
    obtain ⟨progress, h, hresult⟩ := hreturns r rfl
    refine ⟨progress, h, ?_⟩
    rintro _ ⟨⟩
    exact hresult
  · exact ⟨progress, h, fun r hr => absurd ⟨r, hr⟩ hreturned⟩

/-- The names of a directory with given files are in use. -/
theorem Kernel.stocked_used {uid : Nat} {clock : UInt64} {files : List (Name × Bytes)} :
    (Kernel.stocked uid clock files).Used := by
  intro name n hn
  have hfind : files.findIdx? (fun file => file.1 == name) = some n := hn
  exact (List.findIdx?_eq_some_iff_getElem.mp hfind).1

/-- A session in whose directory there is only its live record. -/
def livingFiles : List (Name × Bytes) :=
  [(exampleContext.files.paths.metadata,
    jsonSerde.toVec (exampleContext.liveMetadata false))]

/-- The terminal has shown something. -/
def parkedState : LoopState :=
  { LoopState.start none with tail := (OutputTail.new 8).extend (ascii "bye") }

/-- A session is completed, and nothing fails. -/
theorem completed_plays : ((exampleContext.completeSession parkedState (.code 3)).run.run
    (Kernel.Stage.outside (.runner 0))
    (.stocked 0 100 livingFiles, livingFiles.map Prod.fst)).any (fun result =>
      result.1.isOk) = true := by decide +kernel

theorem completion_atomic_bye : ∃ log finishedAt,
    Runs (alone (.runner 0) (.stocked 0 100 livingFiles) .none)
        (exampleContext.completeSession parkedState (.code 3)).run log (.ret (.ok ())) ∧
      Completing exampleContext parkedState (.code 3) (.runner 0) (.stocked 0 100 livingFiles)
        (.recorded finishedAt) log (after (.runner 0) (.stocked 0 100 livingFiles) log) := by
  obtain ⟨⟨r, stage⟩, hplay, hr⟩ := (Option.any_eq_true _ _).mp completed_plays
  obtain ⟨log, hrun, -⟩ := runs_alone Kernel.stocked_covers hplay
  obtain ⟨progress, h, hreturns⟩ := completion_atomic exampleContext parkedState (.code 3)
    (.runner 0) (.stocked 0 100 livingFiles) .none Kernel.stocked_used hrun
  have hdone : r = .ok () := by
    cases r with
    | error error => cases hr
    | ok _ => rfl
  subst hdone
  cases progress with
  | begun => exact ((hreturns _ rfl).mpr rfl).elim
  | stored => exact ((hreturns _ rfl).mpr rfl).elim
  | recorded finishedAt => exact ⟨log, finishedAt, hrun, h⟩

end AfkCli
