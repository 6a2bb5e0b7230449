import AfkCli.Alone

/-!
# The registry of one process alone

What each function of the registry finds in the directory and leaves of it, when the process runs
alone: one lemma for each function, whatever calls fail.

## Main definitions

* `Pruned`: the state with some entries removed, and time passed
* `HasRecord`: a session has a valid record

## Main results

* `wp_readMetadata`: a record is read, or there is none
* `wp_removeCompleted`, `wp_removeStaleLive`: entries are removed
-/

namespace AfkCli

open Interaction Discipline Function

/-! ## States -/

/-- Entries whose names satisfy `P` may be gone, and time has passed. -/
structure Pruned (P : Name → Prop) (s s' : Kernel) : Prop where
  dir : ∀ name, s'.dir name = s.dir name ∨ P name ∧ s'.dir name = none
  inode : s'.inode = s.inode
  uid : s'.uid = s.uid
  umask : s'.umask = s.umask
  fresh_le : s.fresh ≤ s'.fresh
  clock_le : s.clock ≤ s'.clock

namespace Pruned

variable {P P' : Name → Prop} {s s' s'' : Kernel} {name : Name}

theorem refl (s : Kernel) : Pruned P s s :=
  ⟨fun _ => .inl rfl, rfl, rfl, rfl, Nat.le_refl _, UInt64.le_refl _⟩

theorem of_eq (h : s' = s) : Pruned P s s' := by
  subst h
  exact refl s'

theorem mono (hP : ∀ name, P name → P' name) (h : Pruned P s s') : Pruned P' s s' where
  dir name := (h.dir name).imp_right fun hgone => ⟨hP name hgone.1, hgone.2⟩
  inode := h.inode
  uid := h.uid
  umask := h.umask
  fresh_le := h.fresh_le
  clock_le := h.clock_le

theorem trans (h : Pruned P s s') (h' : Pruned P s' s'') : Pruned P s s'' where
  dir name := by
    obtain hkept' | hgone' := h'.dir name
    · rw [hkept']
      exact h.dir name
    · exact .inr hgone'
  inode := h'.inode.trans h.inode
  uid := h'.uid.trans h.uid
  umask := h'.umask.trans h.umask
  fresh_le := Nat.le_trans h.fresh_le h'.fresh_le
  clock_le := UInt64.le_trans h.clock_le h'.clock_le

/-- An entry that is not one of those is as it was. -/
theorem keeps (h : Pruned P s s') (hname : ¬ P name) : s'.dir name = s.dir name :=
  (h.dir name).resolve_right fun hgone => hname hgone.1

/-- Nothing appears. -/
theorem none_of_none (h : Pruned P s s') (hname : s.dir name = none) : s'.dir name = none := by
  obtain hkept | hgone := h.dir name
  · rw [hkept, hname]
  · exact hgone.2

theorem unlink (s : Kernel) (name : Name) : Pruned (· = name) s (s.unlink name) where
  dir other := by
    by_cases hother : other = name
    · exact .inr ⟨hother, by rw [hother]; exact update_self ..⟩
    · exact .inl (update_of_ne hother _ _)
  inode := rfl
  uid := rfl
  umask := rfl
  fresh_le := Nat.le_refl _
  clock_le := UInt64.le_refl _

end Pruned

/-- The calls that change no file, no listener, no mask and no clock. -/
def Call.isSilent : Call → Bool
  | .process (.umask _) | .process (.now _) => false
  | .file (.createNew ..) | .file (.removeFile ..) | .file (.rename ..) | .file (.writeAll ..)
  | .file (.setPermissions ..) => false
  | .socket (.bind _) | .socket (.listen _) | .socket (.closeListener _) => false
  | _ => true

/-- A silent call leaves everything as it was. -/
theorem Pruned.next {P : Name → Prop} {i : Proc} {s : Kernel} {op : Call} (r : op.Answer)
    (h : op.isSilent = true) : Pruned P s (s.next i op r) := by
  have hfiles : SameFiles s (s.next i op r) := by
    have heffect := Kernel.next_effect i s op r
    generalize s.next i op r = s' at heffect ⊢
    cases heffect with
    | quiet hsame => exact hsame
    | mask | createFile | bind | unlink | rename | write | chmod | listen | close => cases h
  have hhost : SameHost s (s.next i op r) := by
    unfold Kernel.next
    split
    · cases h
    · split
      · exact ⟨rfl, rfl, rfl⟩
      · split
        · rename_i hstep
          exact Kernel.exec_same (A := Outside.any) (F := .none) (.inl ⟨_, trivial, hstep⟩)
        · exact ⟨rfl, rfl, rfl⟩
  exact ⟨fun name => .inl (congrFun hfiles.dir name), hfiles.inode, hhost.uid, hfiles.umask,
    hfiles.fresh_le, by rw [hhost.clock]; exact UInt64.le_refl _⟩

/-- The session has the valid record `metadata`. -/
def HasRecord (R : Registry) (s : Kernel) (session : SessionId) (metadata : SessionMetadata) :
    Prop :=
  ∃ n, s.dir (sessionPaths session).metadata = some n ∧
    ((s.inode n).kind = .regular ∧ (s.inode n).uid = R.uid ∧ (s.inode n).mode = 0o600) ∧
      (s.inode n).bytes.length ≤ maxMetadataBytes ∧
      R.serde.fromSlice (s.inode n).bytes = some metadata ∧
      metadata.sessionId = session.toText

theorem HasRecord.unique {R : Registry} {s : Kernel} {session : SessionId}
    {metadata metadata' : SessionMetadata} (h : HasRecord R s session metadata)
    (h' : HasRecord R s session metadata') : metadata = metadata' := by
  obtain ⟨n, hn, -, -, hbytes, -⟩ := h
  obtain ⟨n', hn', -, -, hbytes', -⟩ := h'
  obtain rfl : n = n' := Option.some.inj (hn.symm.trans hn')
  exact Option.some.inj (hbytes.symm.trans hbytes')

/-- Removing entries adds no record. -/
theorem HasRecord.of_pruned {R : Registry} {P : Name → Prop} {s s' : Kernel} {session : SessionId}
    {metadata : SessionMetadata} (h : Pruned P s s') (h' : HasRecord R s' session metadata) :
    HasRecord R s session metadata := by
  obtain ⟨n, hn, hnode⟩ := h'
  rw [h.inode] at hnode
  refine ⟨n, ?_, hnode⟩
  obtain hkept | hgone := h.dir (sessionPaths session).metadata
  · rwa [hkept] at hn
  · rw [hgone.2] at hn
    cases hn

/-- A record stays while its entry does. -/
theorem HasRecord.pruned {R : Registry} {P : Name → Prop} {s s' : Kernel} {session : SessionId}
    {metadata : SessionMetadata} (h : HasRecord R s session metadata) (hpruned : Pruned P s s')
    (hname : ¬ P (sessionPaths session).metadata) : HasRecord R s' session metadata := by
  obtain ⟨n, hn, hnode⟩ := h
  rw [← hpruned.inode] at hnode
  exact ⟨n, (hpruned.keeps hname).trans hn, hnode⟩

/-- The session's record file, if there is one, is valid. -/
def RecordValid (R : Registry) (s : Kernel) (session : SessionId) : Prop :=
  s.dir (sessionPaths session).metadata = none ∨ ∃ metadata, HasRecord R s session metadata

/-! ## Directories with given files -/

/-- A file of the user. -/
def Inode.stored (uid : Nat) (bytes : Bytes) : Inode :=
  ⟨.regular, uid, 0o600, bytes, none, .closed⟩

/-- A host whose runtime directory has the given files, and where nobody waits for a launcher or a
runner. -/
def Kernel.stocked (uid : Nat) (clock : UInt64) (files : List (Name × Bytes)) : Kernel :=
  { Kernel.boot uid 0o077 clock with
    dir := fun name => files.findIdx? fun file => file.1 == name
    inode := fun n => .stored uid ((files[n]?.map Prod.snd).getD [])
    fresh := files.length
    directories := fun _ => true
    startup := fun _ => some []
    response := fun _ => some 0 }

section stocked

variable {uid : Nat} {clock : UInt64} {files : List (Name × Bytes)} {name : Name} {bytes : Bytes}

theorem Kernel.stocked_dir_isSome :
    ((Kernel.stocked uid clock files).dir name).isSome ↔ name ∈ files.map Prod.fst := by
  show (files.findIdx? fun file => file.1 == name).isSome ↔ _
  rw [List.findIdx?_isSome, List.any_eq_true]
  simp [List.mem_map]

theorem Kernel.stocked_covers {i : Proc} :
    Kernel.Stage.Covers (Kernel.stocked uid clock files, files.map Prod.fst) i :=
  ⟨fun _ => Kernel.stocked_dir_isSome.mp, fun _ _ => rfl, fun _ _ => rfl⟩

/-- A file is found under its name, with its contents. -/
theorem Kernel.stocked_file (hnodup : (files.map Prod.fst).Nodup) (h : (name, bytes) ∈ files) :
    ∃ n, (Kernel.stocked uid clock files).dir name = some n ∧
      (Kernel.stocked uid clock files).inode n = .stored uid bytes := by
  obtain ⟨n, hn, hget⟩ := List.getElem_of_mem h
  have hfind : files.findIdx? (fun file => file.1 == name) = some n := by
    rw [List.findIdx?_eq_some_iff_getElem]
    refine ⟨hn, by simp [hget], fun m hm hmatch => ?_⟩
    have hm' : m < files.length := by omega
    have hsame : files[m].1 = files[n].1 := by
      rw [hget]
      simpa using hmatch
    have hlen : (files.map Prod.fst).length = files.length := List.length_map _
    have hnames : (files.map Prod.fst)[m] = (files.map Prod.fst)[n] := by simpa using hsame
    have := hnodup.getElem_inj_iff.mp hnames
    omega
  refine ⟨n, hfind, ?_⟩
  show Inode.stored uid ((files[n]?.map Prod.snd).getD []) = _
  rw [List.getElem?_eq_getElem hn, hget]
  rfl

/-- A record among the files is the session's record. -/
theorem Kernel.stocked_record {R : Registry} {session : SessionId} {metadata : SessionMetadata}
    (hnodup : (files.map Prod.fst).Nodup) (huid : R.uid = uid)
    (hid : metadata.sessionId = session.toText)
    (h : ((sessionPaths session).metadata, R.serde.toVec metadata) ∈ files) :
    HasRecord R (Kernel.stocked uid clock files) session metadata := by
  obtain ⟨n, hn, hnode⟩ : ∃ n, (Kernel.stocked uid clock files).dir _ = some n ∧
      (Kernel.stocked uid clock files).inode n = .stored uid _ := Kernel.stocked_file hnodup h
  refine ⟨n, hn, ?_, ?_, ?_, hid⟩
  · rw [hnode]
    exact ⟨rfl, huid.symm, rfl⟩
  · rw [hnode]
    exact R.serde.length_toVec_le metadata (by rw [hid, SessionId.length_toText])
  · rw [hnode]
    exact R.serde.fromSlice_toVec metadata

end stocked

namespace Alone

variable {i : Proc} {s₀ : Kernel} {F : Faults} {Good : RunnerLog → Prop} {log : RunnerLog}
  {R : Registry} {session : SessionId}

/-! ## Reading -/

theorem wp_verifyPath (hgood : Unobserved Good) (hF : F.Honest) {site : Site} {name : Name}
    {uid mode : Nat} {kind : PathKind} :
    (solo i s₀ F Good).wp () (verifyPath site name uid kind mode).run
      (fun r log' => after i s₀ log' = after i s₀ log ∧
        (∀ metadata, r = .ok metadata → ∃ n, (after i s₀ log).dir name = some n ∧
          metadata = ((after i s₀ log).inode n).stat ∧
          checkEntry metadata uid kind mode = .ok metadata) ∧
        (∀ error, r = .error error → error.kind ≠ .alreadyExists ∧
          (error.kind = .notFound → (after i s₀ log).dir name = none)) ∧
        (F = .none → ∀ n, (after i s₀ log).dir name = some n →
          checkEntry ((after i s₀ log).inode n).stat uid kind mode =
              .ok ((after i s₀ log).inode n).stat →
            r = .ok ((after i s₀ log).inode n).stat) ∧
        ((after i s₀ log).dir name = none → ∃ error, r = .error error ∧
          (F = .none → error.kind = .notFound))) log := by
  refine wp_io_bind.mpr (wp_alone hgood (by rintro _ ⟨⟩) fun r hr => ?_)
  obtain ⟨hsame, ⟨error, rfl, hfault⟩ | ⟨hnone, rfl⟩ | ⟨n, hsome, rfl⟩⟩ := hr.lstat
  · refine ⟨hsame, by rintro _ ⟨⟩, ?_, ?_, ?_⟩
    · rintro _ ⟨⟩
      exact ⟨(hF _ _ hfault).2, fun h => absurd h (hF _ _ hfault).1⟩
    · rintro rfl
      exact hfault.elim
    · intro _
      exact ⟨error, rfl, by rintro rfl; exact hfault.elim⟩
  · refine ⟨hsame, by rintro _ ⟨⟩, ?_, ?_, ?_⟩
    · rintro _ ⟨⟩
      exact ⟨by decide, fun _ => hnone⟩
    · intro _ n hn
      rw [hnone] at hn
      cases hn
    · intro _
      exact ⟨_, rfl, fun _ => rfl⟩
  · show (solo i s₀ F Good).wp () (.ret (checkEntry _ uid kind mode)) _ _
    refine wp_ret.mpr ⟨hsame, ?_, ?_, ?_, ?_⟩
    · intro metadata h
      obtain rfl := checkEntry_ok h
      exact ⟨n, hsome, rfl, h⟩
    · intro error h
      rw [checkEntry_error h]
      exact ⟨by decide, by rintro ⟨⟩⟩
    · intro _ n' hn' h
      obtain rfl : n = n' := Option.some.inj (hsome.symm.trans hn')
      exact h
    · intro hnone
      rw [hnone] at hsome
      cases hsome

/-- A file of the user, as `read_bounded_file` accepts it. -/
def Readable (s : Kernel) (name : Name) (uid mode limit n : Nat) : Prop :=
  s.dir name = some n ∧
    ((s.inode n).kind = .regular ∧ (s.inode n).uid = uid ∧ (s.inode n).mode = mode) ∧
      (s.inode n).bytes.length ≤ limit

theorem checkEntry_regular_iff {metadata : Stat} {uid mode : Nat} :
    checkEntry metadata uid .regular mode = .ok metadata ↔
      metadata.kind = .regular ∧ metadata.uid = uid ∧ metadata.mode = mode := by
  unfold checkEntry
  constructor
  · intro h
    split at h
    · cases h
    · rename_i hsafe
      dsimp only at h
      split at h
      · cases h
      · rename_i hmatches
        simp only [Bool.or_eq_true, Bool.not_eq_true', not_or, Bool.not_eq_false, beq_iff_eq]
          at hmatches
        exact ⟨hmatches.1, by simpa using fun huid => hsafe (.inr huid), hmatches.2⟩
  · rintro ⟨hkind, huid, hmode⟩
    simp [hkind, huid, hmode]

theorem wp_readBoundedFile (hgood : Unobserved Good) (hF : F.Honest) {name : Name}
    {uid mode limit : Nat} :
    (solo i s₀ F Good).wp () (readBoundedFile name uid .regular mode limit).run
      (fun r log' => after i s₀ log' = after i s₀ log ∧
        (r = .ok none → (after i s₀ log).dir name = none) ∧
        (∀ bytes, r = .ok (some bytes) → ∃ n, Readable (after i s₀ log) name uid mode limit n ∧
          bytes = ((after i s₀ log).inode n).bytes) ∧
        (∀ error, r = .error error → error.kind ≠ .alreadyExists) ∧
        (F = .none → ((after i s₀ log).dir name = none ∨
          ∃ n, Readable (after i s₀ log) name uid mode limit n) → ∃ found, r = .ok found)) log := by
  refine wp_attempt_bind.mpr (wp_mono ?_ (wp_verifyPath hgood hF))
  rintro (error | metadata) log₁ ⟨hsame, hok, herror, htotal, habsent⟩
  · -- The check failed: the file is missing, or it is not what it should be.
    obtain ⟨hplain, hmissing⟩ := herror error rfl
    have hno : F = .none → ∀ n, Readable (after i s₀ log) name uid mode limit n → False := by
      rintro hnone n ⟨hn, hnode, -⟩
      cases htotal hnone n hn (checkEntry_regular_iff.mpr hnode)
    dsimp only
    split_ifs with hkind
    · refine wp_ret.mpr ⟨hsame, fun _ => hmissing hkind, by rintro _ ⟨⟩, by rintro _ ⟨⟩, ?_⟩
      exact fun _ _ => ⟨none, rfl⟩
    · refine wp_ret.mpr ⟨hsame, by rintro ⟨⟩, by rintro _ ⟨⟩, ?_, ?_⟩
      · rintro _ ⟨⟩
        exact hplain
      · rintro hnone (hdir | ⟨n, hn⟩)
        · obtain ⟨error', herror', hkind'⟩ := habsent hdir
          cases herror'
          exact absurd (hkind' hnone) hkind
        · exact (hno hnone n hn).elim
  · obtain ⟨n, hn, rfl, hcheck⟩ := hok metadata rfl
    have hnode := checkEntry_regular_iff.mp hcheck
    dsimp only
    split_ifs with hlong
    · refine wp_ret.mpr ⟨hsame, by rintro ⟨⟩, by rintro _ ⟨⟩, ?_, ?_⟩
      · rintro _ ⟨⟩
        decide
      · rintro hnone (hdir | ⟨n', hn', -, hle⟩)
        · rw [hn] at hdir
          cases hdir
        · obtain rfl : n = n' := Option.some.inj (hn.symm.trans hn')
          exact absurd hle (Nat.not_le.mpr hlong)
    · have hle : ((after i s₀ log).inode n).bytes.length ≤ limit := Nat.not_lt.mp hlong
      refine wp_io_bind.mpr (wp_alone hgood (by rintro _ ⟨⟩) fun r hr => ?_)
      rw [hsame] at hr
      obtain ⟨hsame', ⟨error, rfl, hfault⟩ | ⟨hnone, rfl⟩ | ⟨n', hn', hread⟩⟩ := hr.readFile
      · refine wp_ret.mpr ⟨?_, by rintro ⟨⟩, by rintro _ ⟨⟩, ?_, ?_⟩
        · rw [after_cons, hsame]
          exact hsame'
        · rintro _ ⟨⟩
          exact (hF _ _ hfault).2
        · rintro rfl
          exact hfault.elim
      · rw [hn] at hnone
        cases hnone
      · obtain rfl : n = n' := Option.some.inj (hn.symm.trans hn')
        obtain rfl := hread hnode.1
        have hwhole : ((after i s₀ log).inode n).bytes.take (limit + 1) =
            ((after i s₀ log).inode n).bytes := List.take_of_length_le (by omega)
        rw [hwhole]
        dsimp only [onOk_ok]
        rw [if_neg (Nat.not_lt.mpr hle)]
        refine wp_ret.mpr ⟨?_, by rintro ⟨⟩, ?_, by rintro _ ⟨⟩, fun _ _ => ⟨_, rfl⟩⟩
        · rw [after_cons, hsame, ← hwhole]
          exact hsame'
        · rintro _ ⟨⟩
          exact ⟨n, ⟨hn, hnode, hle⟩, rfl⟩

/-- What `read_metadata` says of a session: its record is valid, or it has none. -/
structure Reads (F : Faults) (R : Registry) (session : SessionId) (s : Kernel)
    (r : Except IoError (Option SessionMetadata)) : Prop where
  absent : r = .ok none → s.dir (sessionPaths session).metadata = none
  found : ∀ metadata, r = .ok (some metadata) → HasRecord R s session metadata
  plain : ∀ error, r = .error error → error.kind ≠ .alreadyExists
  total : F = .none → R.Fits session → RecordValid R s session → ∃ metadata, r = .ok metadata

theorem wp_readMetadata (hgood : Unobserved Good) (hF : F.Honest) :
    (solo i s₀ F Good).wp () (R.readMetadata session).run
      (fun r log' => after i s₀ log' = after i s₀ log ∧ Reads F R session (after i s₀ log) r) log := by
  unfold Registry.readMetadata
  by_cases hfits : R.Fits session
  · rw [Registry.paths_eq hfits, pure_bind]
    refine wp_io_bind.mpr (wp_mono ?_ (wp_readBoundedFile hgood hF))
    rintro (error | _ | bytes) log₁ ⟨hsame, hnone, hsome, herror, htotal⟩
    · refine wp_ret.mpr ⟨hsame, by rintro ⟨⟩, by rintro _ ⟨⟩, ?_, ?_⟩
      · rintro _ ⟨⟩
        exact herror error rfl
      · rintro hF' - (hdir | ⟨metadata, n, hn, hnode, hle, -⟩)
        · obtain ⟨found, hfound⟩ := htotal hF' (.inl hdir)
          cases hfound
        · obtain ⟨found, hfound⟩ := htotal hF' (.inr ⟨n, hn, hnode, hle⟩)
          cases hfound
    · refine wp_ret.mpr ⟨hsame, fun _ => hnone rfl, by rintro _ ⟨⟩, by rintro _ ⟨⟩, ?_⟩
      exact fun _ _ _ => ⟨none, rfl⟩
    · obtain ⟨n, ⟨hn, hnode, hle⟩, rfl⟩ := hsome bytes rfl
      -- A valid record is the one in this file.
      have hvalid : RecordValid R (after i s₀ log) session → ∃ metadata,
          R.serde.fromSlice ((after i s₀ log).inode n).bytes = some metadata ∧
            metadata.sessionId = session.toText := by
        rintro (hdir | ⟨metadata, n', hn', -, -, hbytes, hid⟩)
        · rw [hn] at hdir
          cases hdir
        · obtain rfl : n = n' := Option.some.inj (hn.symm.trans hn')
          exact ⟨metadata, hbytes, hid⟩
      dsimp only [onOk_ok]
      cases hbytes : R.serde.fromSlice ((after i s₀ log).inode n).bytes with
      | none =>
        refine wp_ret.mpr ⟨hsame, by rintro ⟨⟩, by rintro _ ⟨⟩, ?_, ?_⟩
        · rintro _ ⟨⟩
          decide
        · intro _ _ h
          obtain ⟨metadata, hmetadata, -⟩ := hvalid h
          rw [hbytes] at hmetadata
          cases hmetadata
      | some metadata =>
        dsimp only
        split_ifs with hid
        · refine wp_ret.mpr ⟨hsame, by rintro ⟨⟩, by rintro _ ⟨⟩, ?_, ?_⟩
          · rintro _ ⟨⟩
            decide
          · intro _ _ h
            obtain ⟨metadata', hmetadata, hid'⟩ := hvalid h
            rw [hbytes] at hmetadata
            exact absurd (Option.some.inj hmetadata ▸ hid') hid
        · refine wp_ret.mpr ⟨hsame, by rintro ⟨⟩, ?_, by rintro _ ⟨⟩, fun _ _ _ => ⟨_, rfl⟩⟩
          rintro _ ⟨⟩
          exact ⟨n, hn, hnode, hle, hbytes, not_not.mp hid⟩
  · rw [Registry.paths_error hfits]
    refine wp_ret.mpr ⟨rfl, by rintro ⟨⟩, by rintro _ ⟨⟩, ?_, fun _ h => absurd h hfits⟩
    rintro _ ⟨⟩
    decide

/-! ## Connecting -/

/-- What `connect` says of a session: somebody listens at its socket. -/
structure Connects (session : SessionId) (s s' : Kernel) (log' : RunnerLog) (r : Except IoError Fd) :
    Prop where
  pruned : Pruned (fun _ => False) s s'
  listening : ∀ stream, r = .ok stream → ∃ n, s.dir (sessionPaths session).socket = some n ∧
    (s.inode n).listener = .listening
  connected : ∀ stream, r = .ok stream →
    ⟨Call.socket (.connect (sessionPaths session).socket), .ok stream⟩ ∈ log'
  plain : ∀ error, r = .error error → error.kind ≠ .alreadyExists

theorem wp_connect (hgood : Unobserved Good) (hF : F.Honest) :
    (solo i s₀ F Good).wp () (R.connect session).run
      (fun r log' => Connects session (after i s₀ log) (after i s₀ log') log' r) log := by
  unfold Registry.connect
  have hfailed : ∀ {log' : RunnerLog} {error : IoError}, error.kind ≠ .alreadyExists →
      Pruned (fun _ => False) (after i s₀ log) (after i s₀ log') →
        Connects session (after i s₀ log) (after i s₀ log') log' (.error error) := by
    refine fun hkind hpruned => ⟨hpruned, by rintro _ ⟨⟩, by rintro _ ⟨⟩, ?_⟩
    rintro _ ⟨⟩
    exact hkind
  by_cases hfits : R.Fits session
  · rw [Registry.paths_eq hfits, pure_bind]
    refine wp_seq _ (wp_verifyPath hgood hF) (fun metadata log₁ h₁ => ?_) fun error log₁ h₁ => ?_
    · refine wp_io_bind.mpr (wp_alone hgood (by rintro _ ⟨⟩) fun r hr => ?_)
      have hstep : Pruned (fun _ => False) (after i s₀ log) (after i s₀ (⟨_, r⟩ :: log₁)) := by
        rw [← h₁.1]
        exact Pruned.next r rfl
      obtain ⟨error, rfl, -, -⟩ | ⟨n, hn, hlistening, rfl, -⟩ := hr.connect
      · exact wp_ret.mpr (hfailed (fun h => hr.creates error rfl h) hstep)
      rw [h₁.1] at hn hlistening
      refine wp_attempt_bind.mpr (wp_alone hgood (by rintro _ ⟨⟩) fun r' hr' => ?_)
      have hstep' := hstep.trans (Pruned.next (P := fun _ => False) (i := i) r' rfl)
      -- A refused peer's stream is dropped.
      have hclose : ∀ {log' : RunnerLog} {error : IoError}, error.kind ≠ .alreadyExists →
          Pruned (fun _ => False) (after i s₀ log) (after i s₀ log') →
            (solo i s₀ F Good).wp () (socket (.close (after i s₀ log₁).fresh))
              (fun _ log'' => Connects session (after i s₀ log) (after i s₀ log'') log''
                (.error error)) log' := by
        intro log' error hkind hpruned
        refine wp_alone hgood (by rintro _ ⟨⟩) fun r'' hr'' => hfailed hkind ?_
        exact hpruned.trans (Pruned.next r'' rfl)
      obtain error | uid := r'
      · exact wp_lift_bind.mpr (hclose (fun h => hr'.creates error rfl h) hstep')
      · dsimp only
        split_ifs with huid
        · exact wp_lift_bind.mpr (hclose (by decide) hstep')
        · refine wp_ret.mpr ⟨hstep', ?_, ?_, by rintro _ ⟨⟩⟩
          · exact fun _ _ => ⟨n, hn, hlistening⟩
          · rintro _ ⟨⟩
            simp
    · exact hfailed (h₁.2.2.1 error rfl).1 (.of_eq h₁.1)
  · rw [Registry.paths_error hfits]
    exact wp_ret.mpr (hfailed (by decide) (.refl _))

/-! ## Removing -/

theorem wp_removeIfPresent (hgood : Unobserved Good) {name : Name} :
    (solo i s₀ F Good).wp () (removeIfPresent name).run
      (fun r log' => Pruned (· = name) (after i s₀ log) (after i s₀ log') ∧
        (r = .ok () → F.Honest → (after i s₀ log').dir name = none) ∧
        ∀ error, r = .error error → error.kind ≠ .alreadyExists) log := by
  refine wp_attempt_bind.mpr (wp_alone hgood (by rintro _ ⟨⟩) fun r hr => ?_)
  have hplain := hr.creates
  obtain ⟨error, rfl, hsame, hcause⟩ | ⟨n, hn, rfl, hnext⟩ := hr.removeFile
  · have hkind : error.kind ≠ .alreadyExists := fun h => hplain error rfl h
    have hsame' : after i s₀ (⟨.file (.removeFile .removeCompleted name), .error error⟩ :: log) =
        after i s₀ log := hsame
    dsimp only
    split_ifs with hmissing
    · refine wp_ret.mpr ⟨.of_eq hsame', fun _ hF => ?_, by rintro _ ⟨⟩⟩
      rw [hsame']
      obtain hfault | ⟨-, hnone⟩ | ⟨rfl, -⟩ := hcause
      · exact absurd hmissing (hF _ _ hfault).1
      · exact hnone
      · cases hmissing
    · refine wp_ret.mpr ⟨.of_eq hsame', by rintro ⟨⟩, ?_⟩
      rintro _ ⟨⟩
      exact hkind
  · have hnext' : after i s₀ (⟨.file (.removeFile .removeCompleted name), .ok ()⟩ :: log) =
        (after i s₀ log).unlink name := hnext
    refine wp_ret.mpr ⟨?_, fun _ _ => ?_, by rintro _ ⟨⟩⟩
    · rw [hnext']
      exact .unlink _ _
    · rw [hnext']
      exact update_self ..

theorem wp_removeOwnedEntryIfPresent (hgood : Unobserved Good) (hF : F.Honest) {name : Name}
    {uid mode : Nat} {kind : PathKind} :
    (solo i s₀ F Good).wp () (removeOwnedEntryIfPresent name uid kind mode).run
      (fun r log' => Pruned (· = name) (after i s₀ log) (after i s₀ log') ∧
        (r = .ok () → (after i s₀ log').dir name = none) ∧
        ∀ error, r = .error error → error.kind ≠ .alreadyExists) log := by
  refine wp_attempt_bind.mpr (wp_mono ?_ (wp_verifyPath hgood hF))
  rintro (error | metadata) log₁ ⟨hsame, hok, herror, -, -⟩
  · obtain ⟨hplain, hmissing⟩ := herror error rfl
    dsimp only
    split_ifs with hkind
    · refine wp_ret.mpr ⟨.of_eq hsame, fun _ => ?_, by rintro _ ⟨⟩⟩
      rw [hsame]
      exact hmissing hkind
    · refine wp_ret.mpr ⟨.of_eq hsame, by rintro ⟨⟩, ?_⟩
      rintro _ ⟨⟩
      exact hplain
  · refine wp_alone hgood (by rintro _ ⟨⟩) fun r hr => ?_
    have hplain := hr.creates
    obtain ⟨error, rfl, hsame', -⟩ | ⟨n, hn, rfl, hnext⟩ := hr.removeFile
    · refine ⟨.of_eq (hsame'.trans hsame), by rintro ⟨⟩, ?_⟩
      rintro _ ⟨⟩
      exact fun h => hplain error rfl h
    · have hnext' : after i s₀ (⟨.file (.removeFile .removeStaleLive name), .ok ()⟩ :: log₁) =
          (after i s₀ log).unlink name := by
        rw [← hsame]
        exact hnext
      refine ⟨?_, fun _ => ?_, by rintro _ ⟨⟩⟩
      · rw [hnext']
        exact .unlink _ _
      · rw [hnext']
        exact update_self ..

/-- The files that a finished session leaves. -/
def CompletedFiles (session : SessionId) (name : Name) : Prop :=
  name = (sessionPaths session).output ∨ name = (sessionPaths session).trace ∨
    name = (sessionPaths session).metadata

/-- The files that a dead runner leaves. -/
def LiveFiles (session : SessionId) (name : Name) : Prop :=
  name = (sessionPaths session).socket ∨ name = (sessionPaths session).lock ∨
    name = (sessionPaths session).trace ∨ name = (sessionPaths session).metadata

/-- Entries are removed: all of them, or some when it fails. -/
structure Removes (P : Name → Prop) (s : Kernel) (r : Except IoError Unit) (s' : Kernel) :
    Prop where
  pruned : Pruned P s s'
  gone : r = .ok () → ∀ name, P name → s'.dir name = none
  plain : ∀ error, r = .error error → error.kind ≠ .alreadyExists

theorem Removes.seq {P P' P'' : Name → Prop} {s s' s'' : Kernel} {r : Except IoError Unit}
    (hP : ∀ name, P'' name ↔ P name ∨ P' name) (h : Removes P s (.ok ()) s')
    (h' : Removes P' s' r s'') : Removes P'' s r s'' where
  pruned := (h.pruned.mono fun name hname => (hP name).mpr (.inl hname)).trans
    (h'.pruned.mono fun name hname => (hP name).mpr (.inr hname))
  gone hr name hname := by
    obtain hname | hname := (hP name).mp hname
    · exact h'.pruned.none_of_none (h.gone rfl name hname)
    · exact h'.gone hr name hname
  plain := h'.plain

theorem Removes.failed {P P'' : Name → Prop} {s s' : Kernel} {error : IoError}
    (hP : ∀ name, P name → P'' name) (h : Removes P s (.error error) s') :
    Removes P'' s (.error error) s' where
  pruned := h.pruned.mono hP
  gone := by rintro ⟨⟩
  plain := h.plain

/-- One entry, and then others. -/
theorem wp_removes_seq {P P' P'' : Name → Prop} {p q : Io Unit}
    (hP : ∀ name, P'' name ↔ P name ∨ P' name)
    (hp : (solo i s₀ F Good).wp () p.run
      (fun r log' => Removes P (after i s₀ log) r (after i s₀ log')) log)
    (hq : ∀ log₁, (solo i s₀ F Good).wp () q.run
      (fun r log' => Removes P' (after i s₀ log₁) r (after i s₀ log')) log₁) :
    (solo i s₀ F Good).wp () (p >>= fun _ => q).run
      (fun r log' => Removes P'' (after i s₀ log) r (after i s₀ log')) log := by
  refine wp_seq _ hp (fun a log₁ h => ?_) fun error log₁ h => ?_
  · exact wp_mono (fun r log' h' => h.seq hP h') (hq log₁)
  · exact h.failed fun name hname => (hP name).mpr (.inl hname)

theorem wp_removeCompleted (hgood : Unobserved Good) (hF : F.Honest) :
    (solo i s₀ F Good).wp () (Registry.removeCompleted (sessionPaths session)).run
      (fun r log' => Removes (CompletedFiles session) (after i s₀ log) r (after i s₀ log')) log := by
  have hone : ∀ (name : Name) (log₁ : RunnerLog), (solo i s₀ F Good).wp ()
      (removeIfPresent name).run
        (fun r log' => Removes (· = name) (after i s₀ log₁) r (after i s₀ log')) log₁ := by
    intro name log₁
    refine wp_mono (fun r log' h => ⟨h.1, fun hr => ?_, h.2.2⟩) (wp_removeIfPresent hgood)
    rintro _ rfl
    exact h.2.1 hr hF
  refine wp_removes_seq (fun name => Iff.rfl) (hone _ _) fun log₁ => ?_
  exact wp_removes_seq (fun name => Iff.rfl) (hone _ _) fun log₂ => hone _ _

theorem wp_removeStaleLive (hgood : Unobserved Good) (hF : F.Honest) :
    (solo i s₀ F Good).wp () (R.removeStaleLive (sessionPaths session)).run
      (fun r log' => Removes (LiveFiles session) (after i s₀ log) r (after i s₀ log')) log := by
  have hone : ∀ (name : Name) (kind : PathKind) (log₁ : RunnerLog), (solo i s₀ F Good).wp ()
      (removeOwnedEntryIfPresent name R.uid kind 0o600).run
        (fun r log' => Removes (· = name) (after i s₀ log₁) r (after i s₀ log')) log₁ := by
    intro name kind log₁
    refine wp_mono (fun r log' h => ⟨h.1, fun hr => ?_, h.2.2⟩)
      (wp_removeOwnedEntryIfPresent hgood hF)
    rintro _ rfl
    exact h.2.1 hr
  refine wp_removes_seq (fun name => Iff.rfl) (hone _ _ _) fun log₁ => ?_
  refine wp_removes_seq (fun name => Iff.rfl) (hone _ _ _) fun log₂ => ?_
  exact wp_removes_seq (fun name => Iff.rfl) (hone _ _ _) fun log₃ => hone _ _ _

/-! ## Writing -/

/-- Only the directory and the inode `n` may differ. -/
structure Beside (n : Nat) (s s' : Kernel) : Prop where
  inode : ∀ m, m ≠ n → s'.inode m = s.inode m
  uid : s'.uid = s.uid
  umask : s'.umask = s.umask
  clock : s'.clock = s.clock

theorem Beside.trans {n : Nat} {s s' s'' : Kernel} (h : Beside n s s') (h' : Beside n s' s'') :
    Beside n s s'' where
  inode m hm := (h'.inode m hm).trans (h.inode m hm)
  uid := h'.uid.trans h.uid
  umask := h'.umask.trans h.umask
  clock := h'.clock.trans h.clock

theorem Beside.create {s : Kernel} {name : Name} {node : Inode} :
    Beside s.fresh s (s.create name node) :=
  ⟨fun _ hm => update_of_ne hm _ _, rfl, rfl, rfl⟩

theorem Beside.modify {n : Nat} {s : Kernel} {f : Inode → Inode} : Beside n s (s.modify n f) :=
  ⟨fun _ hm => update_of_ne hm _ _, rfl, rfl, rfl⟩

theorem Beside.redirect {n : Nat} {s : Kernel} {dir : Name → Option Nat} :
    Beside n s { s with dir } :=
  ⟨fun _ _ => rfl, rfl, rfl, rfl⟩

/-- What `atomic_write` leaves: the new file under its name, or perhaps a temporary file. -/
structure Writes (F : Faults) (i : Proc) (temporary name : Name) (bytes : Bytes) (s : Kernel)
    (r : Except IoError Unit) (s' : Kernel) : Prop where
  beside : Beside s.fresh s s'
  fresh_le : s.fresh ≤ s'.fresh
  written : r = .ok () → s'.dir = update s.dir name (some s.fresh) ∧
    s'.inode s.fresh = { s.newFile i 0o600 with bytes } ∧ s.fresh < s'.fresh
  failed : ∀ error, r = .error error →
    s'.dir = s.dir ∨ s.dir temporary = none ∧ s'.dir = update s.dir temporary (some s.fresh)
  conflict : F.Honest → ∀ error, r = .error error → error.kind = .alreadyExists →
    (s.dir temporary).isSome

/-- The new file is written, but not yet in its place. -/
structure Filled (i : Proc) (temporary : Name) (bytes : Bytes) (s s' : Kernel) : Prop where
  beside : Beside s.fresh s s'
  dir : s'.dir = update s.dir temporary (some s.fresh)
  fresh : s'.fresh = s.fresh + 1
  node : s'.inode s.fresh = { s.newFile i 0o600 with bytes }

theorem wp_fill (hgood : Unobserved Good) {temporary name : Name} {bytes : Bytes} {s : Kernel}
    (h : Filled i temporary [] s (after i s₀ log)) :
    (solo i s₀ F Good).wp () (ExceptT.run (do
        ask (file (.writeAll .atomicWrite s.fresh bytes))
        ask (file (.syncAll s.fresh))
        ask (file (.rename temporary name)) : Io Unit))
      (fun r log' =>
        (r = .ok () → ∃ s', Filled i temporary bytes s s' ∧ after i s₀ log' =
          { s' with dir := update (update s'.dir temporary none) name (some s.fresh) }) ∧
        ∀ error, r = .error error → error.kind ≠ .alreadyExists ∧
          ∃ bytes', Filled i temporary bytes' s (after i s₀ log')) log := by
  refine wp_io_bind.mpr (wp_alone hgood (by rintro _ ⟨⟩) fun r hr => ?_)
  have hcreates := hr.creates
  obtain ⟨error, rfl, hnext, -⟩ | ⟨rfl, hnext⟩ := hr.writeAll
  · refine wp_ret.mpr ⟨by rintro ⟨⟩, ?_⟩
    rintro _ ⟨⟩
    have hsame : after i s₀ (⟨.file (.writeAll .atomicWrite s.fresh bytes), .error error⟩ :: log) =
        after i s₀ log := hnext
    exact ⟨fun hkind => hcreates error rfl hkind, [], by rw [hsame]; exact h⟩
  have hwritten : Filled i temporary bytes s
      (after i s₀ (⟨.file (.writeAll .atomicWrite s.fresh bytes), .ok ()⟩ :: log)) := by
    have hnext' : after i s₀ (⟨.file (.writeAll .atomicWrite s.fresh bytes), .ok ()⟩ :: log) =
        (after i s₀ log).modify s.fresh fun node => { node with bytes := node.bytes ++ bytes } :=
      hnext
    rw [hnext']
    refine ⟨h.beside.trans .modify, h.dir, h.fresh, ?_⟩
    show update _ _ _ _ = _
    rw [update_self, h.node]
    rfl
  refine wp_io_bind.mpr (wp_alone hgood (by rintro _ ⟨⟩) fun r' hr' => ?_)
  have hcreates' := hr'.creates
  obtain ⟨hsame, ⟨error, rfl, -⟩ | rfl⟩ := hr'.syncAll
  · refine wp_ret.mpr ⟨by rintro ⟨⟩, ?_⟩
    rintro _ ⟨⟩
    refine ⟨fun hkind => hcreates' error rfl hkind, bytes, ?_⟩
    show Filled i temporary bytes s (Kernel.next i _ _ _)
    rw [hsame]
    exact hwritten
  have hsynced : Filled i temporary bytes s (after i s₀ (⟨.file (.syncAll s.fresh), .ok ()⟩ ::
      ⟨.file (.writeAll .atomicWrite s.fresh bytes), .ok ()⟩ :: log)) := by
    show Filled i temporary bytes s (Kernel.next i _ _ _)
    rw [hsame]
    exact hwritten
  refine wp_alone hgood (by rintro _ ⟨⟩) fun r'' hr'' => ?_
  obtain ⟨error, rfl, hnext'', -⟩ | ⟨n, hn, rfl, hnext''⟩ := hr''.rename
  · refine ⟨by rintro ⟨⟩, ?_⟩
    rintro _ ⟨⟩
    refine ⟨fun hkind => hr''.creates error rfl hkind, bytes, ?_⟩
    show Filled i temporary bytes s (Kernel.next i _ _ _)
    rw [hnext'']
    exact hsynced
  · refine ⟨fun _ => ⟨_, hsynced, ?_⟩, by rintro _ ⟨⟩⟩
    rw [hsynced.dir, update_self, Option.some.injEq] at hn
    subst hn
    exact hnext''

theorem wp_atomicWrite (hgood : Unobserved Good) {self : Self} {name : Name} {bytes : Bytes} :
    (solo i s₀ F Good).wp () (atomicWrite self name bytes).run
      (fun r log' => Writes F i (temporaryName name self.pid) name bytes (after i s₀ log) r
        (after i s₀ log')) log := by
  refine wp_io_bind.mpr (wp_alone hgood (by rintro _ ⟨⟩) fun r hr => ?_)
  obtain ⟨error, rfl, hnext, hcause⟩ | ⟨hnone, rfl, hnext⟩ := hr.createNew
  · have hsame : after i s₀ (⟨.file (.createNew (temporaryName name self.pid) 0o600),
        .error error⟩ :: log) = after i s₀ log := hnext
    refine wp_ret.mpr ?_
    rw [hsame]
    refine ⟨⟨fun _ _ => rfl, rfl, rfl, rfl⟩, Nat.le_refl _, by rintro ⟨⟩, fun _ _ => .inl rfl, ?_⟩
    rintro hF _ ⟨⟩ hkind
    exact hcause.elim (fun hfault => absurd hkind (hF _ _ hfault).2) fun h => h.2
  · have hnext' : after i s₀ (⟨.file (.createNew (temporaryName name self.pid) 0o600),
        .ok (after i s₀ log).fresh⟩ :: log) =
          (after i s₀ log).create (temporaryName name self.pid)
            ((after i s₀ log).newFile i 0o600) := hnext
    have hcreated : Filled i (temporaryName name self.pid) [] (after i s₀ log)
        (after i s₀ (⟨.file (.createNew (temporaryName name self.pid) 0o600),
          .ok (after i s₀ log).fresh⟩ :: log)) := by
      rw [hnext']
      exact ⟨.create, rfl, rfl, update_self ..⟩
    refine wp_attempt_bind.mpr (wp_mono ?_ (wp_fill hgood hcreated))
    rintro (error | _) log₁ ⟨hok, herror⟩
    · -- The write failed: the temporary file is removed, if that can be done.
      obtain ⟨hplain, bytes', hfilled⟩ := herror error rfl
      refine wp_ignore_bind.mpr (wp_alone hgood (by rintro _ ⟨⟩) fun r' hr' => wp_ret.mpr ?_)
      have hconflict : F.Honest → ∀ error', (.error error : Except IoError Unit) = .error error' →
          error'.kind = .alreadyExists →
            ((after i s₀ log).dir (temporaryName name self.pid)).isSome := by
        rintro - _ ⟨⟩ hkind
        exact absurd hkind hplain
      have hle : (after i s₀ log).fresh ≤ (after i s₀ log₁).fresh := by
        rw [hfilled.fresh]
        exact Nat.le_succ _
      obtain ⟨error', rfl, hnext₁, -⟩ | ⟨n, hn, rfl, hnext₁⟩ := hr'.removeFile
      · have hsame : after i s₀ (⟨.file (.removeFile .atomicWrite (temporaryName name self.pid)),
            .error error'⟩ :: log₁) = after i s₀ log₁ := hnext₁
        rw [hsame]
        exact ⟨hfilled.beside, hle, by rintro ⟨⟩, fun _ _ => .inr ⟨hnone, hfilled.dir⟩, hconflict⟩
      · have hgone : after i s₀ (⟨.file (.removeFile .atomicWrite (temporaryName name self.pid)),
            .ok ()⟩ :: log₁) = (after i s₀ log₁).unlink (temporaryName name self.pid) := hnext₁
        rw [hgone]
        refine ⟨hfilled.beside.trans .redirect, hle, by rintro ⟨⟩, fun _ _ => .inl ?_, hconflict⟩
        show update _ _ _ = _
        rw [hfilled.dir, update_idem, ← hnone, update_eq_self]
    · obtain ⟨s', hfilled, hplaced⟩ := hok rfl
      refine wp_ret.mpr ?_
      rw [hplaced]
      refine ⟨hfilled.beside.trans .redirect, ?_, fun _ => ⟨?_, hfilled.node, ?_⟩, by rintro _ ⟨⟩,
        fun _ => by rintro _ ⟨⟩⟩
      · show _ ≤ s'.fresh
        rw [hfilled.fresh]
        exact Nat.le_succ _
      · show update (update s'.dir _ _) _ _ = _
        rw [hfilled.dir, update_idem, ← hnone, update_eq_self]
      · show _ < s'.fresh
        rw [hfilled.fresh]
        exact Nat.lt_succ_self _

end Alone

end AfkCli
