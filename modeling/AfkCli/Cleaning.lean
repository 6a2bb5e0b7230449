import AfkCli.Attach
import AfkCli.Listing
import AfkCli.Serving

/-!
# Removing the expired sessions

`Registry::open` removes the completed sessions whose record has expired: those whose record file is
among the first 1024 entries of the directory.

## Main definitions

* `Swept`: what the removal leaves of a directory
* `Cleared`, `AllListed`: no expired record remains, and all of them are listed
* `Opened`: the clock and the listing of an opening

## Main results

* `wp_cleanupNames`, `wp_openRegistry`: what an opening leaves
* `expired_removed`: no expired record remains exactly when the listing begins with all of them
-/

namespace AfkCli

open Interaction Discipline

/-! ## What is removed -/

/-- The entry is a file of a session whose record has expired, and whose record file is listed. -/
def Expired (R : Registry) (now : UInt64) (names : List Name) (s : Kernel) (name : Name) : Prop :=
  ∃ session metadata, HasRecord R s session metadata ∧ metadata.isExpired now = true ∧
    (sessionPaths session).metadata ∈ names ∧ Alone.CompletedFiles session name

/-- The expired sessions that are listed are gone, and nothing else is. -/
structure Swept (R : Registry) (now : UInt64) (names : List Name) (s s' : Kernel) : Prop where
  pruned : Pruned (Expired R now names s) s s'
  gone : ∀ name, Expired R now names s name → s'.dir name = none

namespace Swept

variable {R : Registry} {now : UInt64} {name : Name} {names : List Name} {s s' s'' : Kernel}

theorem nil (s : Kernel) : Swept R now [] s s where
  pruned := .refl s
  gone := by
    rintro name ⟨session, metadata, -, -, hname, -⟩
    cases hname

/-- An entry that is not an expired record is passed over. -/
theorem skip (hname : ∀ session metadata, name = (sessionPaths session).metadata →
      HasRecord R s session metadata → metadata.isExpired now = false)
    (h : Swept R now names s s') : Swept R now (name :: names) s s' := by
  have hsame : ∀ other, Expired R now (name :: names) s other ↔ Expired R now names s other := by
    intro other
    constructor
    · rintro ⟨session, metadata, hrecord, hexpired, hentry, hother⟩
      obtain hentry | hentry := List.mem_cons.mp hentry
      · rw [hname session metadata hentry.symm hrecord] at hexpired
        cases hexpired
      · exact ⟨session, metadata, hrecord, hexpired, hentry, hother⟩
    · rintro ⟨session, metadata, hrecord, hexpired, hentry, hother⟩
      exact ⟨session, metadata, hrecord, hexpired, List.mem_cons_of_mem _ hentry, hother⟩
  exact ⟨h.pruned.mono fun other => (hsame other).mpr, fun other hother =>
    h.gone other ((hsame other).mp hother)⟩

/-- An expired session is removed, and then those of the rest. -/
theorem cons {session : SessionId} {metadata : SessionMetadata}
    (hrecord : HasRecord R s session metadata) (hexpired : metadata.isExpired now = true)
    (hremoved : Alone.Removes (Alone.CompletedFiles session) s (.ok ()) s')
    (h : Swept R now names s' s'') :
    Swept R now ((sessionPaths session).metadata :: names) s s'' := by
  refine ⟨(hremoved.pruned.mono ?_).trans (h.pruned.mono ?_), ?_⟩
  · intro name hname
    exact ⟨session, metadata, hrecord, hexpired, List.mem_cons_self, hname⟩
  · rintro name ⟨session', metadata', hrecord', hexpired', hentry, hname⟩
    exact ⟨session', metadata', hrecord'.of_pruned hremoved.pruned, hexpired',
      List.mem_cons_of_mem _ hentry, hname⟩
  · rintro name ⟨session', metadata', hrecord', hexpired', hentry, hname⟩
    by_cases hsession : session' = session
    · subst hsession
      exact h.pruned.none_of_none (hremoved.gone rfl name hname)
    · -- Another session's record is not among the files that were removed.
      have hkept : ∀ session'', session'' ≠ session →
          ¬ Alone.CompletedFiles session (sessionPaths session'').metadata := by
        intro session'' hne hfile
        refine files_disjoint hne (a := (sessionPaths session'').metadata) ?_ ?_
        · simp [SessionPaths.files]
        · obtain h | h | h := hfile <;> simp [h, SessionPaths.files]
      refine h.gone name ⟨session', metadata', hrecord'.pruned hremoved.pruned (hkept _ hsession),
        hexpired', ?_, hname⟩
      refine (List.mem_cons.mp hentry).resolve_left fun heq => ?_
      exact hkept _ hsession (heq ▸ .inr (.inr rfl))

/-- Time may pass before, and after. -/
theorem of_pruned {P : Name → Prop} (hP : ∀ name, ¬ P name) (h : Pruned P s s')
    (hswept : Swept R now names s' s'') : Swept R now names s s'' := by
  have hsame : ∀ name, Expired R now names s name ↔ Expired R now names s' name := by
    intro name
    constructor
    · rintro ⟨session, metadata, hrecord, hrest⟩
      exact ⟨session, metadata, hrecord.pruned h (hP _), hrest⟩
    · rintro ⟨session, metadata, hrecord, hrest⟩
      exact ⟨session, metadata, hrecord.of_pruned h, hrest⟩
  exact ⟨(h.mono fun name hname => absurd hname (hP name)).trans
    (hswept.pruned.mono fun name => (hsame name).mpr),
    fun name hname => hswept.gone name ((hsame name).mp hname)⟩

theorem congr {R' : Registry}
    (hR : ∀ session metadata, HasRecord R s session metadata ↔ HasRecord R' s session metadata)
    (h : Swept R now names s s') : Swept R' now names s s' := by
  have hsame : ∀ name, Expired R now names s name ↔ Expired R' now names s name := by
    intro name
    simp only [Expired, hR]
  exact ⟨h.pruned.mono fun name => (hsame name).mp, fun name hname =>
    h.gone name ((hsame name).mpr hname)⟩

end Swept

/-- No expired record remains, nor the output of one. -/
structure Cleared (R : Registry) (now : UInt64) (s s' : Kernel) : Prop where
  record : ∀ session metadata, HasRecord R s' session metadata → metadata.isExpired now = false
  output : ∀ session metadata, HasRecord R s session metadata → metadata.isExpired now = true →
    s'.dir (sessionPaths session).output = none

/-- The names of all expired records are listed. -/
def AllListed (R : Registry) (now : UInt64) (names : List Name) (s : Kernel) : Prop :=
  ∀ session metadata, HasRecord R s session metadata → metadata.isExpired now = true →
    (sessionPaths session).metadata ∈ names

/-- The expired records are gone exactly when all of them were listed. -/
theorem Swept.clear_iff {R : Registry} {now : UInt64} {names : List Name} {s s' : Kernel}
    (h : Swept R now names s s') : Cleared R now s s' ↔ AllListed R now names s := by
  constructor
  · intro hclear session metadata hrecord hexpired
    by_contra hunlisted
    -- A record that is not listed is kept.
    have hkept : ¬ Expired R now names s (sessionPaths session).metadata := by
      rintro ⟨session', metadata', -, -, hentry, hname⟩
      have hfiles : (sessionPaths session).metadata ∈ (sessionPaths session').files := by
        obtain h | h | h := hname <;> simp [h, SessionPaths.files]
      by_cases hsession : session = session'
      · exact hunlisted (hsession ▸ hentry)
      · exact files_disjoint hsession (by simp [SessionPaths.files]) hfiles
    have hremains := hclear.record session metadata (hrecord.pruned h.pruned hkept)
    rw [hexpired] at hremains
    cases hremains
  · intro hlisted
    refine ⟨fun session metadata hrecord' => ?_, fun session metadata hrecord hexpired => ?_⟩
    · by_contra hexpired
      rw [Bool.not_eq_false] at hexpired
      have hrecord := hrecord'.of_pruned h.pruned
      have hentry := hlisted session metadata hrecord hexpired
      obtain ⟨n, hn, -⟩ := hrecord'
      have hgone := h.gone (sessionPaths session).metadata
        ⟨session, metadata, hrecord, hexpired, hentry, .inr (.inr rfl)⟩
      rw [hgone] at hn
      cases hn
    · have hentry := hlisted session metadata hrecord hexpired
      exact h.gone _ ⟨session, metadata, hrecord, hexpired, hentry, .inl rfl⟩

/-! ## An opening -/

/-- The time and the listing of an opening. -/
def Opened (now : UInt64) (names : List Name) (log : RunnerLog) : Prop :=
  ⟨Call.process (.now .cleanupExpired), .ok now⟩ ∈ log ∧
    ⟨Call.file .readDir, .ok (names.map .ok)⟩ ∈ log

/-- The registry has the user of a process and the text of its records, as the one that `open` returns. -/
def Registry.Of (R : Registry) (serde : Serde) (self : Self) : Prop :=
  R.uid = self.uid ∧ R.serde = serde

namespace Alone

variable {i : Proc} {s₀ : Kernel} {F : Faults} {Good : RunnerLog → Prop} {log : RunnerLog}
  {R : Registry} {session : SessionId}

/-- The rest of the listing: on success its expired sessions are gone. -/
theorem wp_cleanupNames (hgood : Unobserved Good) (hF : F.Honest) (now : UInt64)
    (names : List Name) :
    (solo i s₀ F Good).wp () (R.cleanupNames now (names.map .ok)).run
      (fun r log' => (r = .ok () → Swept R now names (after i s₀ log) (after i s₀ log')) ∧
        ∀ error, r = .error error → error.kind ≠ .alreadyExists) log := by
  induction names generalizing log with
  | nil => exact wp_ret.mpr ⟨fun _ => .nil _, by rintro _ ⟨⟩⟩
  | cons name names ih =>
    rw [List.map_cons, Registry.cleanupNames]
    refine wp_io_bind.mpr (wp_ret.mpr ?_)
    dsimp only [onOk_ok]
    cases hname : sessionFromMetadataName name with
    | none =>
      -- The entry is no record file.
      refine wp_mono (fun r log' h => ⟨fun hr => (h.1 hr).skip ?_, h.2⟩) ih
      rintro session metadata rfl -
      rw [sessionFromMetadataName_eq_some.mpr rfl] at hname
      cases hname
    | some session =>
      obtain rfl := sessionFromMetadataName_eq_some.mp hname
      dsimp only
      by_cases hfits : R.Fits session
      · rw [Registry.paths_eq hfits, pure_bind]
        refine wp_io_bind.mpr (wp_mono ?_ (wp_readMetadata hgood hF))
        rintro (error | _ | metadata) log₁ ⟨hsame, hreads⟩
        · refine wp_ret.mpr ⟨by rintro ⟨⟩, ?_⟩
          rintro _ ⟨⟩
          exact hreads.plain error rfl
        · -- There is no such record.
          refine wp_mono (fun r log' h => ⟨fun hr => ?_, h.2⟩) ih
          rw [← hsame]
          refine (h.1 hr).skip fun session' metadata' heq hrecord => ?_
          obtain ⟨n, hn, -⟩ := hrecord
          rw [← heq, hsame, hreads.absent rfl] at hn
          cases hn
        · have hrecord := hreads.found metadata rfl
          dsimp only [onOk_ok]
          split_ifs with hexpired
          · refine wp_seq _ (wp_removeCompleted hgood hF) (fun _ log₂ hremoved => ?_) ?_
            · refine wp_mono (fun r log' h => ⟨fun hr => ?_, h.2⟩) ih
              rw [hsame] at hremoved
              exact .cons hrecord hexpired hremoved (h.1 hr)
            · intro error log₂ hremoved
              refine ⟨by rintro ⟨⟩, ?_⟩
              rintro _ ⟨⟩
              exact hremoved.plain error rfl
          · refine wp_mono (fun r log' h => ⟨fun hr => ?_, h.2⟩) ih
            rw [← hsame]
            refine (h.1 hr).skip fun session' metadata' heq hrecord' => ?_
            rw [hsame] at hrecord'
            obtain rfl : session = session' := by
              rw [heq, sessionFromMetadataName_eq_some.mpr rfl] at hname
              exact (Option.some.inj hname).symm
            rw [hrecord'.unique hrecord]
            simpa using hexpired
      · rw [Registry.paths_error hfits]
        refine wp_ret.mpr ⟨by rintro ⟨⟩, ?_⟩
        rintro _ ⟨⟩
        decide

/-- What `cleanup_expired` and `open` establish: on success the expired sessions at the beginning of
the listing are gone. -/
structure Opens {α : Type} (R : Registry) (s s' : Kernel) (log' : RunnerLog) (r : Except IoError α) :
    Prop where
  swept : ∀ a, r = .ok a → ∃ now names, Opened now names log' ∧ s.Lists names ∧ s.clock ≤ now ∧
    Swept R now (names.take maxSessionListEntries) s s'
  plain : ∀ error, r = .error error → error.kind ≠ .alreadyExists

theorem wp_cleanupExpired (hgood : Unobserved Good) (hF : F.Honest) :
    (solo i s₀ F Good).wp () R.cleanupExpired.run
      (fun r log' => Opens R (after i s₀ log) (after i s₀ log') log' r) log := by
  refine wp_io_bind.mpr (wp_alone hgood (by rintro _ ⟨⟩) fun r hr => ?_)
  have hcreates := hr.creates
  obtain ⟨error, rfl, -, -⟩ | ⟨now, hle, rfl, hnext⟩ := hr.now
  · refine wp_ret.mpr ⟨by rintro _ ⟨⟩, ?_⟩
    rintro _ ⟨⟩
    exact fun h => hcreates error rfl h
  -- Only the clock has moved.
  have hclock : Pruned (fun _ => False) (after i s₀ log)
      (after i s₀ (⟨.process (.now .cleanupExpired), .ok now⟩ :: log)) := by
    have hnext' : after i s₀ (⟨.process (.now .cleanupExpired), .ok now⟩ :: log) =
        { after i s₀ log with clock := now } := hnext
    rw [hnext']
    exact ⟨fun _ => .inl rfl, rfl, rfl, rfl, Nat.le_refl _, hle⟩
  have hdir : ∀ name, (after i s₀ (⟨.process (.now .cleanupExpired), .ok now⟩ :: log)).dir name =
      (after i s₀ log).dir name := fun name => hclock.keeps not_false
  refine wp_io_bind.mpr (wp_alone hgood (by rintro _ ⟨⟩) fun r hr => ?_)
  have hcreates := hr.creates
  obtain ⟨hsame, ⟨error, rfl, -⟩ | ⟨names, hnames, rfl⟩⟩ := hr.readDir
  · refine wp_ret.mpr ⟨by rintro _ ⟨⟩, ?_⟩
    rintro _ ⟨⟩
    exact fun h => hcreates error rfl h
  have hlists : (after i s₀ log).Lists names := by
    refine ⟨hnames.1, fun name => ?_⟩
    rw [hnames.2, hdir]
  show (solo i s₀ F Good).wp () (R.cleanupNames now (List.take _ _)).run _ _
  rw [← List.map_take]
  refine wp_mono (fun r log' h => ⟨fun a hr => ?_, h.1.2⟩)
    (wp_extends (wp_cleanupNames hgood hF now _))
  have hextends := h.2.subset
  refine ⟨now, names, ⟨hextends (by simp), hextends List.mem_cons_self⟩, hlists, hle, ?_⟩
  have hsame' : after i s₀ (⟨.file .readDir, .ok (names.map .ok)⟩ ::
      ⟨.process (.now .cleanupExpired), .ok now⟩ :: log) =
        after i s₀ (⟨.process (.now .cleanupExpired), .ok now⟩ :: log) := hsame
  have hswept := h.1.1 hr
  rw [hsame'] at hswept
  exact .of_pruned (fun _ => id) hclock hswept

theorem wp_ensurePrivateDirectory (hgood : Unobserved Good) {uid : Nat}
    {path : Bytes} (rounds : Nat) :
    (solo i s₀ F Good).wp () (ensurePrivateDirectory uid path rounds).run
      (fun r log' => Pruned (fun _ => False) (after i s₀ log) (after i s₀ log') ∧
        ∀ error, r = .error error → error.kind ≠ .alreadyExists) log := by
  -- The calls on the private directories change no entry of the runtime directory.
  have hsilent : ∀ {log₁ : RunnerLog} {op : Call} (r : op.Answer), op.isSilent = true →
      Pruned (fun _ => False) (after i s₀ log₁) (after i s₀ (⟨op, r⟩ :: log₁)) :=
    fun r h => Pruned.next r h
  induction rounds generalizing log with
  | zero => exact trivial
  | succ rounds ih =>
    refine wp_attempt_bind.mpr (wp_alone hgood (by rintro _ ⟨⟩) fun r hr => ?_)
    have hcreates := hr.creates
    have hlook : Pruned (fun _ => False) (after i s₀ log)
        (after i s₀ (⟨.file (.lstatDirectory path), r⟩ :: log)) := hsilent r rfl
    obtain error | metadata := r
    · dsimp only
      split_ifs with hmissing
      · refine wp_attempt_bind.mpr (wp_alone hgood (by rintro _ ⟨⟩) fun r hr => ?_)
        have hcreate : Pruned (fun _ => False) (after i s₀ log)
            (after i s₀ (⟨.file (.createDirectory path 0o700), r⟩ :: _)) :=
          hlook.trans (hsilent r rfl)
        obtain error' | _ := r
        · dsimp only
          split_ifs with hexists
          · refine wp_mono (fun r log' h => ⟨hcreate.trans h.1, h.2⟩) ih
          · refine wp_ret.mpr ⟨hcreate, ?_⟩
            rintro _ ⟨⟩
            exact hexists
        · exact wp_ret.mpr ⟨hcreate, by rintro _ ⟨⟩⟩
      · refine wp_ret.mpr ⟨hlook, ?_⟩
        rintro _ ⟨⟩
        exact fun h => hcreates error rfl h
    · dsimp only
      split_ifs with hkind huid
      · refine wp_ret.mpr ⟨hlook, ?_⟩
        rintro _ ⟨⟩
        decide
      · refine wp_ret.mpr ⟨hlook, ?_⟩
        rintro _ ⟨⟩
        decide
      · refine wp_alone hgood (by rintro _ ⟨⟩) fun r hr => ?_
        refine ⟨hlook.trans (hsilent r rfl), ?_⟩
        rintro error rfl
        exact fun h => hr.creates error rfl h

theorem wp_openRegistry (hgood : Unobserved Good) (hF : F.Honest) {serde : Serde} {self : Self} :
    (solo i s₀ F Good).wp () (openRegistry serde self).run
      (fun r log' => (∀ R', r = .ok R' → R'.Of serde self) ∧
        ∀ R : Registry, R.Of serde self → Opens R (after i s₀ log) (after i s₀ log') log' r) log := by
  unfold openRegistry
  split
  · refine wp_ret.mpr ⟨by rintro _ ⟨⟩, fun R _ => ⟨by rintro _ ⟨⟩, ?_⟩⟩
    rintro _ ⟨⟩
    decide
  · rename_i home hhome
    have hfailed : ∀ {s s' : Kernel} {log' : RunnerLog} {error : IoError},
        error.kind ≠ .alreadyExists →
          (∀ R', (.error error : Except IoError Registry) = .ok R' → R'.Of serde self) ∧
            ∀ R : Registry, R.Of serde self →
              Opens R s s' log' (.error error : Except IoError Registry) := by
      refine fun hkind => ⟨by rintro _ ⟨⟩, fun R _ => ⟨by rintro _ ⟨⟩, ?_⟩⟩
      rintro _ ⟨⟩
      exact hkind
    refine wp_seq _ (wp_ensurePrivateDirectory hgood _) (fun _ log₁ h₁ => ?_)
      fun error _ h => hfailed (h.2 error rfl)
    refine wp_seq _ (wp_ensurePrivateDirectory hgood _) (fun _ log₂ h₂ => ?_)
      fun error _ h => hfailed (h.2 error rfl)
    refine wp_seq _ (wp_cleanupExpired hgood hF) (fun _ log₃ h₃ => ?_)
      fun error _ h => hfailed (h.plain error rfl)
    have hbefore := h₁.1.trans h₂.1
    refine wp_ret.mpr ⟨?_, ?_⟩
    · rintro _ ⟨⟩
      exact ⟨rfl, rfl⟩
    · rintro ⟨root, uid, serde'⟩ ⟨huid, hserde⟩
      obtain rfl : uid = self.uid := huid
      obtain rfl : serde' = serde := hserde
      refine ⟨fun _ _ => ?_, by rintro _ ⟨⟩⟩
      obtain ⟨now, names, hopened, hnames, hle, hswept⟩ := h₃.swept () rfl
      refine ⟨now, names, hopened, ⟨hnames.1, fun name => ?_⟩,
        UInt64.le_trans hbefore.clock_le hle, .of_pruned (fun _ => id) hbefore ?_⟩
      · rw [hnames.2, hbefore.keeps not_false]
      · -- A record is valid for any registry of this user.
        refine Swept.congr ?_ hswept
        exact fun session metadata => Iff.rfl

/-! ### Joining a session -/

/-- The calls that add no entry of the name, and are no answer to the launcher. -/
def NoEntry (name : Name) (op : Call) : Prop :=
  name ∉ op.names ∧ ∀ response, op ≠ .process (.sendResponse response)

/-- A program that makes only such calls adds no such entry. -/
theorem wp_noEntry {α : Type} {name : Name} (hgood : Unobserved Good) {p : Prog α}
    (hp : Calls (NoEntry name) p) :
    (solo i s₀ F Good).wp () p
      (fun _ log' => (after i s₀ log).dir name = none → (after i s₀ log').dir name = none) log := by
  induction p generalizing log with
  | ret a => exact id
  | spin => exact trivial
  | call op k ih =>
    show (solo i s₀ F Good).wp () ((Program.perform op).bind k) _ _
    refine wp_bind.mpr (wp_alone hgood hp.1.2 fun r _ => ?_)
    refine wp_mono (fun _ log' h hnone => h ?_) (ih r (hp.2 r trivial))
    rw [← Option.not_isSome_iff_eq_none]
    intro hsome
    obtain hold | hnew := Kernel.dir_next hsome
    · rw [hnone] at hold
      cases hold
    · exact hp.1.1 hnew

theorem noEntry_of_traces (name : Name) {op : Call} (h : Traces op) : NoEntry name op := by
  rcases op with op | op | op | op | op <;> cases op <;> first
    | exact h.elim
    | exact ⟨List.not_mem_nil, by rintro _ ⟨⟩⟩

theorem only_attachmentTrace (name : Name) {self : Self} {enabled : Bool} :
    Only (NoEntry name) (attachmentTrace self R session enabled) := by
  have hfile : ∀ {call : FileCall}, Call.names (.file call) = [] →
      Calls (NoEntry name) (file call) := by
    intro call hcall
    refine .perform ⟨?_, by rintro _ ⟨⟩⟩
    rw [hcall]
    exact List.not_mem_nil
  have hopen : ∀ path, Only (NoEntry name) (Trace.openTrace self path "attachment") := by
    intro path
    refine .bind (.ask (hfile rfl)) fun metadata => ?_
    split_ifs
    · exact .throw _
    · refine .bind (.ask (hfile rfl)) fun fd => .lift ?_
      exact Calls.mono (calls_traceWrite _ _ _) fun op => noEntry_of_traces name
  unfold attachmentTrace
  split_ifs
  · by_cases hfits : R.Fits session
    · rw [Registry.paths_eq hfits, pure_bind]
      refine .bind (.attempt (hopen _)) fun r => ?_
      cases r with
      | ok trace => exact .pure _
      | error error =>
        dsimp only
        split_ifs
        · exact .pure _
        · exact .throw _
    · rw [Registry.paths_error hfits]
      exact .throw _
  · exact .pure _

/-- Nobody shows a session without a record but its runner. -/
theorem wp_attach (hF : F.Honest) {serde : Serde} {self : Self} {traceEnabled : Bool}
    (hR : R.Of serde self) :
    (solo i s₀ F fun _ => True).wp () (attach serde self session traceEnabled).run
      (fun r log' => ∀ exit, r = .ok exit → ∃ now names, Opened now names log' ∧
        (after i s₀ log).Lists names ∧
          ∀ metadata, HasRecord R (after i s₀ log) session metadata →
            metadata.isExpired now = true →
              (sessionPaths session).metadata ∈ names.take maxSessionListEntries →
                ∃ stream, ⟨Call.socket (.connect (sessionPaths session).socket), .ok stream⟩ ∈ log')
      log := by
  have hgood := unobserved_true
  refine wp_seq _ (wp_openRegistry hgood hF) (fun R' log₁ h₁ => ?_) (by rintro error _ - _ ⟨⟩)
  obtain ⟨now, names, hopened, hnames, -, hswept⟩ := (h₁.2 R hR).swept R' rfl
  -- What follows shows the session only if there is a record, or a runner.
  refine wp_mono ?_ (wp_extends (Q := fun r log' => ∀ exit, r = .ok exit →
    (after i s₀ log₁).dir (sessionPaths session).metadata = none →
      ∃ stream, ⟨Call.socket (.connect (sessionPaths session).socket), .ok stream⟩ ∈ log') ?_)
  · rintro r log' ⟨hshown, hextends⟩ exit hr
    refine ⟨now, names, ⟨hextends.subset hopened.1, hextends.subset hopened.2⟩, hnames, ?_⟩
    intro metadata hrecord hexpired hentry
    apply hshown exit hr
    exact hswept.gone _ ⟨session, metadata, hrecord, hexpired, hentry, .inr (.inr rfl)⟩
  refine wp_seq _ (wp_noEntry hgood (only_attachmentTrace (sessionPaths session).metadata))
    (fun trace log₂ h₂ => ?_) (by rintro error _ - _ ⟨⟩)
  refine wp_lift_bind.mpr (wp_mono ?_ (wp_noEntry hgood (Calls.mono
    (calls_traceEvent trace "attachment_process_started") fun op =>
      noEntry_of_traces (sessionPaths session).metadata)))
  intro trace' log₃ h₃
  refine wp_attempt_bind.mpr (wp_mono ?_ (wp_connect hgood hF))
  rintro (error | stream) log₄ h₄
  · refine wp_lift_bind.mpr (wp_mono ?_ (wp_noEntry hgood (Calls.mono
      (calls_traceIoError trace' "runner_socket_connect_failed" error) fun op =>
        noEntry_of_traces (sessionPaths session).metadata)))
    intro trace'' log₅ h₅
    refine wp_io_bind.mpr (wp_mono ?_ (wp_readMetadata hgood hF))
    rintro (error' | _ | metadata) log₆ ⟨-, hreads⟩
    · exact wp_ret.mpr (by rintro _ ⟨⟩)
    · exact wp_ret.mpr (by rintro _ ⟨⟩)
    · -- There is a record here, so there was one before.
      have hpresent : (after i s₀ log₁).dir (sessionPaths session).metadata ≠ none := by
        intro hnone
        obtain ⟨n, hn, -⟩ := hreads.found metadata rfl
        rw [h₅ (h₄.pruned.none_of_none (h₃ (h₂ hnone)))] at hn
        cases hn
      exact wp_mono (fun r log' _ exit hr hnone => absurd hnone hpresent) (wp_anything _)
  · refine wp_mono (fun r log' h exit hr hnone => ⟨stream, h.2.subset (h₄.connected stream rfl)⟩)
      (wp_extends (wp_anything _))

end Alone

/-! ## Expired results -/

/-- **Expired results are gone exactly when they were listed early**: an opening clears the directory
exactly when the first 1024 entries of its listing have all expired records. Then a listing shows
no expired record, and what an attachment shows of such a session comes from a runner. -/
theorem expired_removed (i : Proc) (s₀ : Kernel) (F : Faults) (hF : F.Honest) (self : Self)
    (R : Registry) (hR : R.Of R.serde self) :
    (∀ log R', Runs (alone i s₀ F) (openRegistry R.serde self).run log (.ret (.ok R')) →
      ∃ now names, Opened now names log ∧ s₀.Lists names ∧
        (Cleared R now s₀ (after i s₀ log) ↔
          AllListed R now (names.take maxSessionListEntries) s₀) ∧
        (AllListed R now (names.take maxSessionListEntries) s₀ → ∀ log' sessions,
          Runs (alone i (after i s₀ log) F) R'.list.run log' (.ret (.ok sessions)) →
            ∀ metadata ∈ sessions, metadata.isExpired now = false)) ∧
    ∀ session traceEnabled log exit,
      Runs (alone i s₀ F) (attach R.serde self session traceEnabled).run log (.ret (.ok exit)) →
        ∃ now names, Opened now names log ∧ s₀.Lists names ∧
          ∀ metadata, HasRecord R s₀ session metadata → metadata.isExpired now = true →
            (sessionPaths session).metadata ∈ names.take maxSessionListEntries →
              ∃ stream,
                ⟨Call.socket (.connect (sessionPaths session).socket), .ok stream⟩ ∈ log := by
  refine ⟨fun log R' hrun => ?_, fun session traceEnabled log exit hrun => ?_⟩
  · obtain ⟨-, hresult⟩ := log_sound trivial (Alone.wp_openRegistry unobserved_true hF) hrun
    obtain ⟨hof, hopens⟩ := hresult _ rfl
    obtain ⟨now, names, hopened, hnames, -, hswept⟩ := (hopens R hR).swept R' rfl
    refine ⟨now, names, hopened, hnames, hswept.clear_iff, ?_⟩
    intro hlisted log' sessions hrun' metadata hmetadata
    obtain ⟨-, hlisting⟩ := log_sound trivial (wp_list unobserved_true hF) hrun'
    obtain ⟨names', -, rfl⟩ := (hlisting _ rfl).2.1 sessions rfl
    -- What is shown is a record that remains.
    obtain ⟨name, -, hname⟩ := List.mem_filterMap.mp
      (List.mem_of_mem_take ((List.mergeSort_perm _ _).mem_iff.mp hmetadata))
    obtain ⟨session, -, n, hn, hnode, hle, hbytes, hid⟩ := recordAt_eq_some.mp hname
    refine (hswept.clear_iff.mpr hlisted).record session metadata ⟨n, hn, ?_, hle, ?_, hid⟩
    · rw [hR.1, ← (hof R' rfl).1]
      exact hnode
    · rw [← (hof R' rfl).2]
      exact hbytes
  · obtain ⟨-, hresult⟩ := log_sound trivial (Alone.wp_attach hF hR) hrun
    exact hresult _ rfl exit rfl

/-! ## A crowded directory -/

/-- Entries that are no records are passed over. -/
theorem Registry.cleanupNames_eq_pure {R : Registry} {now : UInt64} {names : List Name}
    (h : ∀ name ∈ names, sessionFromMetadataName name = none) :
    R.cleanupNames now (names.map .ok) = pure () := by
  induction names with
  | nil => rfl
  | cons name names ih =>
    rw [List.map_cons, Registry.cleanupNames]
    show (pure name : Io Name) >>= _ = _
    rw [pure_bind, h name List.mem_cons_self]
    exact ih fun other hother => h other (List.mem_cons_of_mem _ hother)

namespace Cleaning

def self : Self := ⟨7, 0, some (ascii "/root"), none, 4⟩

def registry : Registry where
  root := ascii "/root/.afk/run"
  uid := 0
  serde := jsonSerde

def numbered (k : Nat) : SessionId :=
  ⟨[UInt8.ofNat (k / 256), UInt8.ofNat k] ++ List.replicate 14 0, by simp⟩

/-- A session that finished a day ago. -/
def finished (k : Nat) : SessionMetadata :=
  .completed (numbered k).toText 10 20 (.code 0) 0 false

def outputs (count : Nat) : List Name :=
  (List.range count).map fun k => (sessionPaths (numbered k)).output

def records (count : Nat) : List Name :=
  (List.range count).map fun k => (sessionPaths (numbered k)).metadata

/-- Finished sessions, whose outputs are listed before their records. -/
def crowd (count : Nat) : List (Name × Bytes) :=
  (outputs count).map (fun name => (name, [])) ++
    (List.range count).map fun k =>
      ((sessionPaths (numbered k)).metadata, jsonSerde.toVec (finished k))

def crowded (count : Nat) : Kernel := .stocked 0 86420 (crowd count)

theorem numbered_injOn {k k' : Nat} (hk : k < 65536) (hk' : k' < 65536)
    (h : numbered k = numbered k') : k = k' := by
  have hbytes := congrArg SessionId.bytes h
  simp only [numbered, List.cons_append, List.nil_append, List.cons.injEq, and_true] at hbytes
  have hhigh := congrArg UInt8.toNat hbytes.1
  have hlow := congrArg UInt8.toNat hbytes.2
  simp only [UInt8.toNat_ofNat'] at hhigh hlow
  omega

section crowd

variable {count : Nat}

theorem numbered_nodup (hcount : count ≤ 65536) {f : SessionPaths → Name}
    (hf : ∀ session, f (sessionPaths session) ∈ (sessionPaths session).files) :
    ((List.range count).map fun k => f (sessionPaths (numbered k))).Nodup := by
  refine List.Nodup.map_on (fun k hk k' hk' h => ?_) List.nodup_range
  rw [List.mem_range] at hk hk'
  apply numbered_injOn (by omega) (by omega)
  by_contra hne
  exact files_disjoint hne (hf _) (h ▸ hf _)

theorem output_ne_record {session session' : SessionId} :
    (sessionPaths session).output ≠ (sessionPaths session').metadata := by
  intro h
  have hlength := congrArg List.length h
  simp only [sessionPaths, List.length_append, SessionId.length_toText] at hlength
  cases hlength

theorem crowd_names : (crowd count).map Prod.fst = outputs count ++ records count := by
  rw [crowd, List.map_append, List.map_map, List.map_map]
  congr 1
  exact List.map_id _

theorem crowd_nodup (hcount : count ≤ 65536) : ((crowd count).map Prod.fst).Nodup := by
  rw [crowd_names]
  refine List.nodup_append'.mpr ⟨?_, ?_, ?_⟩
  · exact numbered_nodup hcount fun _ => by simp [SessionPaths.files]
  · exact numbered_nodup hcount fun _ => by simp [SessionPaths.files]
  · intro name hname hname'
    obtain ⟨k, -, rfl⟩ := List.mem_map.mp hname
    obtain ⟨k', -, h⟩ := List.mem_map.mp hname'
    exact output_ne_record h.symm

theorem crowded_record (hcount : count ≤ 65536) {k : Nat} (hk : k < count) :
    HasRecord registry (crowded count) (numbered k) (finished k) := by
  refine Kernel.stocked_record (crowd_nodup hcount) rfl rfl ?_
  exact List.mem_append_right _ (List.mem_map.mpr ⟨k, List.mem_range.mpr hk, rfl⟩)

theorem crowded_valid (hcount : count ≤ 65536) (session : SessionId) :
    RecordValid registry (crowded count) session := by
  cases hentry : (crowded count).dir (sessionPaths session).metadata with
  | none => exact .inl hentry
  | some n =>
    have hname : (sessionPaths session).metadata ∈ (crowd count).map Prod.fst := by
      rw [← Kernel.stocked_dir_isSome]
      exact Option.isSome_of_eq_some hentry
    rw [crowd_names] at hname
    obtain hname | hname := List.mem_append.mp hname
    · obtain ⟨k, -, h⟩ := List.mem_map.mp hname
      exact absurd h output_ne_record
    · obtain ⟨k, hk, h⟩ := List.mem_map.mp hname
      have hsession : numbered k = session := by
        by_contra hne
        refine files_disjoint hne (a := (sessionPaths session).metadata) ?_ ?_
        · simp [← h, SessionPaths.files]
        · simp [SessionPaths.files]
      subst hsession
      exact .inr ⟨finished k, crowded_record hcount (List.mem_range.mp hk)⟩

/-- The outputs fill the part of the listing that is looked at, so an opening changes nothing. -/
theorem crowded_plays (hcount : maxSessionListEntries ≤ count) (hbound : count ≤ 65536) :
    (openRegistry jsonSerde self).run.run (Kernel.Stage.outside (.caller 0))
      (crowded count, (crowd count).map Prod.fst) =
        some (.ok registry, (crowded count, (crowd count).map Prod.fst)) := by
  have hlisting : (((crowd count).map Prod.fst).dedup.filter
      fun name => ((crowded count).dir name).isSome) = (crowd count).map Prod.fst := by
    rw [(crowd_nodup hbound).dedup, List.filter_eq_self]
    intro name hname
    exact Kernel.stocked_dir_isSome.mpr hname
  have hfirst : (((crowd count).map Prod.fst).map Except.ok).take maxSessionListEntries =
      ((outputs count).take maxSessionListEntries).map fun name =>
        (.ok name : Except IoError Name) := by
    have hle : maxSessionListEntries ≤ (outputs count).length := by
      simpa [outputs] using hcount
    rw [crowd_names, ← List.map_take, List.take_append_of_le_length hle]
  have hskip : ∀ name ∈ (outputs count).take maxSessionListEntries,
      sessionFromMetadataName name = none := by
    intro name hname
    obtain ⟨k, -, rfl⟩ := List.mem_map.mp (List.mem_of_mem_take hname)
    have hfile : (sessionPaths (numbered k)).output ∈ (sessionPaths (numbered k)).files := by
      simp [SessionPaths.files]
    exact sessionFromMetadataName_other hfile output_ne_record
  have hensure : ∀ path, (ensurePrivateDirectory self.uid path self.rounds).run.run
      (Kernel.Stage.outside (.caller 0)) (crowded count, (crowd count).map Prod.fst) =
        some (.ok (), (crowded count, (crowd count).map Prod.fst)) :=
    fun path => rfl
  have hclean : ∀ R : Registry, R.cleanupExpired.run.run (Kernel.Stage.outside (.caller 0))
      (crowded count, (crowd count).map Prod.fst) =
        some (.ok (), (crowded count, (crowd count).map Prod.fst)) := by
    intro R
    show (R.cleanupNames 86420 (((((crowd count).map Prod.fst).dedup.filter
      fun name => ((crowded count).dir name).isSome).map Except.ok).take
        maxSessionListEntries)).run.run _ _ = _
    rw [hlisting, hfirst, Registry.cleanupNames_eq_pure hskip]
    rfl
  show Program.run _ (ExceptT.run (_ >>= fun _ => _ >>= fun _ => _ >>= fun _ => _)) _ = _
  rw [run_bind, Program.run_bind, hensure, Option.bind_some]
  show Program.run _ (ExceptT.run (_ >>= fun _ => _ >>= fun _ => _)) _ = _
  rw [run_bind, Program.run_bind, hensure, Option.bind_some]
  show Program.run _ (ExceptT.run (_ >>= fun _ => _)) _ = _
  rw [run_bind, Program.run_bind, hclean, Option.bind_some]
  rfl

end crowd

end Cleaning

open Cleaning in
/-- In a directory of 1024 expired sessions, all valid, whose outputs are listed first, an opening
removes nothing. -/
theorem expired_remain :
    (∀ session, RecordValid registry (crowded 1024) session) ∧
    ∃ log, Runs (alone (.caller 0) (crowded 1024) .none) (openRegistry jsonSerde self).run log
        (.ret (.ok registry)) ∧
      ∃ now names, Opened now names log ∧
        ∃ session metadata, HasRecord registry (after (.caller 0) (crowded 1024) log) session metadata ∧
          metadata.isExpired now = true := by
  refine ⟨crowded_valid (by decide), ?_⟩
  obtain ⟨log, hrun, hsame, -⟩ := runs_alone Kernel.stocked_covers
    (crowded_plays (Nat.le_refl _) (by decide))
  have hsame' : after (.caller 0) (crowded 1024) log = crowded 1024 := hsame
  refine ⟨log, hrun, ?_⟩
  obtain ⟨-, hresult⟩ := log_sound trivial
    (Alone.wp_openRegistry unobserved_true Faults.honest_none) hrun
  obtain ⟨now, names, hopened, -, hle, -⟩ :=
    ((hresult _ rfl).2 registry ⟨rfl, rfl⟩).swept registry rfl
  refine ⟨now, names, hopened, numbered 0, finished 0, ?_, ?_⟩
  · rw [hsame']
    exact crowded_record (by decide) (by decide)
  · -- A day has passed since it finished.
    have hday : 86420 ≤ now.toNat := UInt64.le_iff_toNat_le.mp hle
    exact decide_eq_true (by
      show 86400 ≤ now.toNat - 20
      omega)

/-! ## A small directory -/

namespace Cleaning

def recent : SessionMetadata :=
  .completed (numbered 1).toText 10 86000 (.code 3) 0 false

def few : List (Name × Bytes) :=
  [((sessionPaths (numbered 0)).output, []),
    ((sessionPaths (numbered 0)).metadata, jsonSerde.toVec (finished 0)),
    ((sessionPaths (numbered 1)).metadata, jsonSerde.toVec recent)]

def small : Kernel := .stocked 0 86420 few

/-- After an opening the listing is of the recent session. -/
theorem small_plays : ((openRegistry jsonSerde self).run.run (Kernel.Stage.outside (.caller 0))
    (small, few.map Prod.fst)).any (fun opening => opening.1.toOption.any fun R =>
      (R.list.run.run (Kernel.Stage.outside (.caller 0)) opening.2).any fun listing =>
        listing.1.toOption == some [recent]) = true := by decide +kernel

/-- An attachment replays the recent session. -/
theorem small_attaches : ((attach jsonSerde self (numbered 1) false).run.run
    (Kernel.Stage.outside (.caller 0)) (small, few.map Prod.fst)).any (fun result =>
      result.1.toOption == some (.code 3)) = true := by decide +kernel

theorem small_listed (now : UInt64) (names : List Name) (hnames : small.Lists names) :
    AllListed registry now (names.take maxSessionListEntries) small := by
  have hlength : names.length ≤ maxSessionListEntries := by
    have hsub : names ⊆ few.map Prod.fst := fun name hname =>
      Kernel.stocked_dir_isSome.mp ((hnames.2 name).mp hname)
    exact (hnames.1.subperm hsub).length_le.trans (by decide)
  intro session metadata hrecord _
  rw [List.take_of_length_le hlength, hnames.2]
  obtain ⟨n, hn, -⟩ := hrecord
  exact Option.isSome_of_eq_some hn

end Cleaning

open Cleaning in
/-- An opening of the small directory clears it, its listing is of the recent session, and an
attachment replays that one. -/
theorem expired_removed_small :
    (∃ log R' now, Runs (alone (.caller 0) small .none) (openRegistry jsonSerde self).run log
        (.ret (.ok R')) ∧ Cleared registry now small (after (.caller 0) small log) ∧
      ∃ log', Runs (alone (.caller 0) (after (.caller 0) small log) .none) R'.list.run log'
          (.ret (.ok [recent])) ∧
        recent.isExpired now = false) ∧
    ∃ log now names, Runs (alone (.caller 0) small .none)
        (attach jsonSerde self (numbered 1) false).run log (.ret (.ok (.code 3))) ∧
      Opened now names log := by
  obtain ⟨hopen, hattach⟩ := expired_removed (.caller 0) small .none Faults.honest_none self
    registry ⟨rfl, rfl⟩
  constructor
  · obtain ⟨⟨r, s', names'⟩, hplay, hr⟩ := (Option.any_eq_true _ _).mp small_plays
    obtain ⟨R', rfl, hlisting⟩ : ∃ R', r = .ok R' ∧
        (R'.list.run.run (Kernel.Stage.outside (.caller 0)) (s', names')).any (fun listing =>
          listing.1.toOption == some [recent]) = true := by
      cases r with
      | error error => cases hr
      | ok R' => exact ⟨R', rfl, hr⟩
    obtain ⟨log, hrun, hsame, hcovers⟩ := runs_alone Kernel.stocked_covers hplay
    obtain ⟨⟨r', stage'⟩, hplay', hr'⟩ := (Option.any_eq_true _ _).mp hlisting
    obtain rfl : r' = .ok [recent] := by
      cases r' with
      | error error => cases hr'
      | ok sessions => simpa [Except.toOption] using hr'
    obtain ⟨log', hrun', -⟩ := runs_alone hcovers hplay'
    have hrun'' : Runs (alone (.caller 0) (after (.caller 0) small log) .none) R'.list.run log'
        (.ret (.ok [recent])) := hsame ▸ hrun'
    obtain ⟨now, names, -, hnames, hclear, hlist⟩ := hopen log R' hrun
    have hlisted := small_listed now names hnames
    exact ⟨log, R', now, hrun, hclear.mpr hlisted, log', hrun'',
      hlist hlisted log' _ hrun'' recent (by simp)⟩
  · obtain ⟨⟨r, stage⟩, hplay, hr⟩ := (Option.any_eq_true _ _).mp small_attaches
    obtain rfl : r = .ok (.code 3) := by
      cases r with
      | error error => cases hr
      | ok exit => simpa [Except.toOption] using hr
    obtain ⟨log, hrun, -⟩ := runs_alone Kernel.stocked_covers hplay
    obtain ⟨now, names, hopened, -⟩ := hattach (numbered 1) false log _ hrun
    exact ⟨log, now, names, hrun, hopened⟩

end AfkCli
