import AfkCli.Json
import AfkCli.Records

/-!
# Listing the sessions

`Registry::list` over a directory of any size, listed in any order.

## Main definitions

* `SessionPaths.files`: the names of a session's files
* `recordOf`: the valid record of a session

## Main results

* `sessionFromMetadataName_eq_some`: the names of records are those of the sessions' metadata files
* `files_disjoint`: distinct sessions share no file
* `wp_list`: what a listing finds
* `list_exact`: the listing is exact
-/

namespace AfkCli

open Interaction Discipline

/-! ## File names -/

/-- The names of a session's files. -/
def SessionPaths.files (paths : SessionPaths) : List Name :=
  [paths.socket, paths.metadata, paths.lock, paths.output, paths.trace]

/-- **The names of records** are those of the sessions' metadata files. -/
theorem sessionFromMetadataName_eq_some {name : Name} {session : SessionId} :
    sessionFromMetadataName name = some session ↔ name = (sessionPaths session).metadata := by
  unfold sessionFromMetadataName
  split_ifs with hshape
  · constructor
    · rintro ⟨⟩
    · rintro rfl
      exact absurd hshape (by simp [sessionPaths]; decide)
  · rw [SessionId.parseBytes_eq_some]
    simp only [not_or, not_not] at hshape
    constructor
    · intro hid
      rw [← List.take_append_drop 32 name, hid, hshape.2]
      rfl
    · rintro rfl
      simp [sessionPaths]

/-- A session's file begins with its ID. -/
theorem take_of_mem_files {session : SessionId} {name : Name}
    (h : name ∈ (sessionPaths session).files) : name.take 32 = session.toText := by
  simp only [SessionPaths.files, sessionPaths, List.mem_cons, List.not_mem_nil, or_false] at h
  rcases h with rfl | rfl | rfl | rfl | rfl <;>
    rw [List.take_append_of_le_length (by simp), List.take_of_length_le (by simp)]

/-- Distinct sessions share no file. -/
theorem files_disjoint {session session' : SessionId} (h : session ≠ session') :
    (sessionPaths session).files.Disjoint (sessionPaths session').files := by
  intro name hname hname'
  apply h
  rw [← SessionId.toText_inj, ← take_of_mem_files hname, take_of_mem_files hname']

/-- The other files of a session are not taken for records. -/
theorem sessionFromMetadataName_other {session : SessionId} {name : Name}
    (h : name ∈ (sessionPaths session).files) (hne : name ≠ (sessionPaths session).metadata) :
    sessionFromMetadataName name = none := by
  cases hname : sessionFromMetadataName name with
  | none => rfl
  | some session' =>
    rw [sessionFromMetadataName_eq_some] at hname
    have hmember : name ∈ (sessionPaths session').files := by
      rw [hname]
      simp [SessionPaths.files]
    by_cases hsame : session = session'
    · rw [hsame] at hne
      exact absurd hname hne
    · exact absurd hmember (files_disjoint hsame h)

/-- A temporary file is not taken for a record. -/
theorem sessionFromMetadataName_temporary {session : SessionId} {name : Name} (pid : UInt32)
    (h : name ∈ (sessionPaths session).files) :
    sessionFromMetadataName (temporaryName name pid) = none := by
  have hlong : 36 ≤ name.length := by
    have hfile := h
    simp only [SessionPaths.files, sessionPaths, List.mem_cons, List.not_mem_nil, or_false]
      at hfile
    rcases hfile with rfl | rfl | rfl | rfl | rfl <;>
      rw [List.length_append, SessionId.length_toText] <;> decide
  refine if_pos (.inl ?_)
  have hdot : (ascii ".").length = 1 := rfl
  have htmp : (ascii ".tmp.").length = 5 := rfl
  simp only [temporaryName, List.length_append, hdot, htmp]
  omega

/-! ## Records -/

open Classical in
/-- The valid record of a session. -/
noncomputable def recordOf (R : Registry) (s : Kernel) (session : SessionId) :
    Option SessionMetadata :=
  if h : ∃ metadata, HasRecord R s session metadata then some h.choose else none

theorem recordOf_eq_some {R : Registry} {s : Kernel} {session : SessionId}
    {metadata : SessionMetadata} :
    recordOf R s session = some metadata ↔ HasRecord R s session metadata := by
  unfold recordOf
  split_ifs with h
  · constructor
    · intro hchosen
      obtain rfl := Option.some.inj hchosen
      exact h.choose_spec
    · intro hrecord
      rw [h.choose_spec.unique hrecord]
  · constructor
    · rintro ⟨⟩
    · intro hrecord
      exact absurd ⟨metadata, hrecord⟩ h

theorem recordOf_eq_none {R : Registry} {s : Kernel} {session : SessionId}
    (h : s.dir (sessionPaths session).metadata = none) : recordOf R s session = none := by
  refine Option.eq_none_iff_forall_ne_some.mpr fun metadata hrecord => ?_
  obtain ⟨n, hn, -⟩ := recordOf_eq_some.mp hrecord
  rw [h] at hn
  cases hn

/-- The record whose file an entry is. -/
noncomputable def recordAt (R : Registry) (s : Kernel) (name : Name) : Option SessionMetadata :=
  (sessionFromMetadataName name).bind (recordOf R s)

theorem recordAt_eq_some {R : Registry} {s : Kernel} {name : Name} {metadata : SessionMetadata} :
    recordAt R s name = some metadata ↔ ∃ session, name = (sessionPaths session).metadata ∧
      HasRecord R s session metadata := by
  simp only [recordAt, Option.bind_eq_some_iff, sessionFromMetadataName_eq_some, recordOf_eq_some]

/-- Records at distinct entries have distinct IDs. -/
theorem recordAt_injective {R : Registry} {s : Kernel} {name name' : Name}
    {metadata metadata' : SessionMetadata} (h : recordAt R s name = some metadata)
    (h' : recordAt R s name' = some metadata') (hid : metadata.sessionId = metadata'.sessionId) :
    name = name' := by
  obtain ⟨session, rfl, n, -, -, -, -, hsession⟩ := recordAt_eq_some.mp h
  obtain ⟨session', rfl, n', -, -, -, -, hsession'⟩ := recordAt_eq_some.mp h'
  rw [hsession, hsession', SessionId.toText_inj] at hid
  rw [hid]

/-! ## The loop -/

section loop

variable {i : Proc} {s₀ : Kernel} {F : Faults} {Good : RunnerLog → Prop} {log : RunnerLog}
  {R : Registry}

theorem wp_listEntries (hgood : Unobserved Good) (hF : F.Honest) (names : List Name)
    (sessions : List SessionMetadata) (hroom : sessions.length ≤ maxSessionListEntries) :
    (solo i s₀ F Good).wp () (R.listEntries (names.map .ok) sessions).run
      (fun r log' => after i s₀ log' = after i s₀ log ∧
        (∀ found, r = .ok found → found = sessions ++
          (names.filterMap (recordAt R (after i s₀ log))).take
            (maxSessionListEntries - sessions.length)) ∧
        (F = .none → (∀ session, R.Fits session) → (∀ session, RecordValid R (after i s₀ log) session) →
          ∃ found, r = .ok found)) log := by
  induction names generalizing sessions log with
  | nil =>
    refine wp_ret.mpr ⟨rfl, ?_, fun _ _ _ => ⟨_, rfl⟩⟩
    rintro _ ⟨⟩
    simp
  | cons name names ih =>
    simp only [List.map_cons, Registry.listEntries]
    split_ifs with hfull
    · refine wp_ret.mpr ⟨rfl, ?_, fun _ _ _ => ⟨_, rfl⟩⟩
      rintro _ ⟨⟩
      simp [hfull]
    · refine wp_io_bind.mpr (wp_ret.mpr ?_)
      dsimp only [onOk_ok]
      cases hname : sessionFromMetadataName name with
      | none =>
        -- The entry is no record file.
        have hskip : recordAt R (after i s₀ log) name = none := by rw [recordAt, hname]; rfl
        rw [List.filterMap_cons_none hskip]
        exact ih sessions hroom
      | some session =>
        refine wp_io_bind.mpr (wp_mono ?_ (Alone.wp_readMetadata hgood hF))
        rintro (error | _ | metadata) log₁ ⟨hsame, hreads⟩
        · refine wp_ret.mpr ⟨hsame, by rintro _ ⟨⟩, fun hnone hfits hvalid => ?_⟩
          obtain ⟨metadata, hmetadata⟩ := hreads.total hnone (hfits session) (hvalid session)
          cases hmetadata
        · have hskip : recordAt R (after i s₀ log) name = none := by
            rw [recordAt, hname]
            exact recordOf_eq_none (hreads.absent rfl)
          rw [List.filterMap_cons_none hskip]
          rw [← hsame]
          exact ih sessions hroom
        · have hfound : recordAt R (after i s₀ log) name = some metadata := by
            rw [recordAt, hname]
            exact recordOf_eq_some.mpr (hreads.found metadata rfl)
          rw [List.filterMap_cons_some hfound]
          have hroom' : (sessions ++ [metadata]).length ≤ maxSessionListEntries := by
            rw [List.length_append, List.length_singleton]
            omega
          rw [← hsame]
          refine wp_mono (fun r log' h => ⟨h.1, fun found hr => ?_, h.2.2⟩)
            (ih (sessions ++ [metadata]) hroom')
          -- One record more is found, and there is room for one less.
          obtain ⟨room, hlen⟩ : ∃ room, maxSessionListEntries - sessions.length = room + 1 :=
            ⟨maxSessionListEntries - sessions.length - 1, by omega⟩
          have hless : maxSessionListEntries - (sessions ++ [metadata]).length = room := by
            rw [List.length_append, List.length_singleton]
            omega
          rw [h.2.1 found hr, hless, hlen, List.take_succ_cons, List.append_assoc]
          rfl

/-- The directory's listing, as the loop meets it. -/
theorem wp_list (hgood : Unobserved Good) (hF : F.Honest) :
    (solo i s₀ F Good).wp () R.list.run
      (fun r log' => after i s₀ log' = after i s₀ log ∧
        (∀ found, r = .ok found → ∃ names, (after i s₀ log).Lists names ∧
          found = ((names.filterMap (recordAt R (after i s₀ log))).take
            maxSessionListEntries).mergeSort fun a b => decide (a.startedAt ≤ b.startedAt)) ∧
        (F = .none → (∀ session, R.Fits session) → (∀ session, RecordValid R (after i s₀ log) session) →
          ∃ found, r = .ok found)) log := by
  refine wp_io_bind.mpr (wp_alone hgood (by rintro _ ⟨⟩) fun r hr => ?_)
  obtain ⟨hsame, ⟨error, rfl, hfault⟩ | ⟨names, hnames, rfl⟩⟩ := hr.readDir
  · refine wp_ret.mpr ⟨hsame, by rintro _ ⟨⟩, ?_⟩
    rintro rfl
    exact hfault.elim
  · have hsame' : after i s₀ (⟨.file .readDir, .ok (names.map .ok)⟩ :: log) = after i s₀ log :=
      hsame
    rw [← hsame']
    refine wp_io_bind.mpr (wp_mono ?_ (wp_listEntries hgood hF names [] (Nat.zero_le _)))
    rintro (error | found) log₁ ⟨hsame₁, hfound, htotal⟩
    · refine wp_ret.mpr ⟨hsame₁, by rintro _ ⟨⟩, fun hnone hfits hvalid => ?_⟩
      obtain ⟨found, hfound⟩ := htotal hnone hfits hvalid
      cases hfound
    · refine wp_ret.mpr ⟨hsame₁, ?_, fun _ _ _ => ⟨_, rfl⟩⟩
      rintro _ ⟨⟩
      refine ⟨names, hnames, ?_⟩
      rw [hfound found rfl]
      rfl

end loop

/-! ## The listing comes to an end -/

theorem halts_readBoundedFile {name : Name} {uid mode limit : Nat} {kind : PathKind} :
    Halts (readBoundedFile name uid kind mode limit) := by
  have hverify : Halts (verifyPath .readBoundedFile name uid kind mode) :=
    .bind (.ask (Program.ends_perform _)) fun _ => .ask (Program.ends_ret _)
  refine .bind (.attempt hverify) fun r => ?_
  cases r with
  | ok metadata =>
    dsimp only
    split_ifs
    · exact .throw _
    · refine .bind (.ask (Program.ends_perform _)) fun bytes => ?_
      split_ifs
      · exact .throw _
      · exact .pure _
  | error error =>
    dsimp only
    split_ifs
    · exact .pure _
    · exact .throw _

theorem halts_readMetadata {R : Registry} {session : SessionId} :
    Halts (R.readMetadata session) := by
  unfold Registry.readMetadata
  by_cases hfits : R.Fits session
  · rw [Registry.paths_eq hfits, pure_bind]
    refine .bind halts_readBoundedFile fun found => ?_
    cases found with
    | none => exact .pure _
    | some bytes =>
      dsimp only
      split
      · exact .throw _
      · split_ifs
        · exact .throw _
        · exact .pure _
  · rw [Registry.paths_error hfits]
    exact .throw _

theorem halts_listEntries {R : Registry} (entries : List (Except IoError Name))
    (sessions : List SessionMetadata) : Halts (R.listEntries entries sessions) := by
  induction entries generalizing sessions with
  | nil => exact .pure _
  | cons entry entries ih =>
    unfold Registry.listEntries
    split_ifs
    · exact .pure _
    · refine .bind (.ask (Program.ends_ret _)) fun name => ?_
      split
      · exact ih sessions
      · refine .bind halts_readMetadata fun found => ?_
        cases found with
        | none => exact ih sessions
        | some metadata => exact ih (sessions ++ [metadata])

theorem halts_list (R : Registry) : Halts R.list :=
  .bind (.ask (Program.ends_perform _)) fun entries =>
    .bind (halts_listEntries entries []) fun _ => .pure _

/-! ## The listing is exact -/

/-- The records of a directory, as a listing is to show them: sorted, one for each session, each the
stored record of its session, at most 1024 of them, and all of them if there are no more. -/
structure Listed (R : Registry) (s : Kernel) (sessions : List SessionMetadata) : Prop where
  sorted : sessions.Pairwise fun a b => a.startedAt ≤ b.startedAt
  distinct : (sessions.map SessionMetadata.sessionId).Nodup
  stored : ∀ metadata ∈ sessions, ∃ session, HasRecord R s session metadata
  length_le : sessions.length ≤ maxSessionListEntries
  all : {session | ∃ metadata, HasRecord R s session metadata}.encard ≤ maxSessionListEntries →
    ∀ session metadata, HasRecord R s session metadata → metadata ∈ sessions

/-- A listing of few records shows exactly the records there are. -/
theorem Listed.mem_iff {R : Registry} {s : Kernel} {sessions : List SessionMetadata}
    (h : Listed R s sessions)
    (hfew : {session | ∃ metadata, HasRecord R s session metadata}.encard ≤ maxSessionListEntries)
    {metadata : SessionMetadata} :
    metadata ∈ sessions ↔ ∃ session, HasRecord R s session metadata :=
  ⟨h.stored metadata, fun ⟨session, hrecord⟩ => h.all hfew session metadata hrecord⟩

/-- The records found in a listing have pairwise distinct IDs. -/
theorem nodup_records {R : Registry} {s : Kernel} {names : List Name} (hnames : names.Nodup) :
    ((names.filterMap (recordAt R s)).map SessionMetadata.sessionId).Nodup := by
  rw [List.Nodup, List.pairwise_map]
  refine List.Pairwise.filterMap (recordAt R s) ?_ hnames
  intro name name' hne metadata h metadata' h' hid
  exact hne (recordAt_injective h h' hid)

/-- A listing finds no more records than there are. -/
theorem length_records_le {R : Registry} {s : Kernel} {names : List Name} (hnames : names.Nodup) :
    ((names.filterMap (recordAt R s)).length : ℕ∞) ≤
      {session | ∃ metadata, HasRecord R s session metadata}.encard := by
  -- The IDs of the records found are distinct, and each has a record.
  have hids := nodup_records (R := R) (s := s) hnames
  have hsub : {id | id ∈ (names.filterMap (recordAt R s)).map SessionMetadata.sessionId} ⊆
      SessionId.toText '' {session | ∃ metadata, HasRecord R s session metadata} := by
    intro id hid
    obtain ⟨metadata, hmetadata, rfl⟩ := List.mem_map.mp hid
    obtain ⟨name, -, hname⟩ := List.mem_filterMap.mp hmetadata
    obtain ⟨session, -, hrecord⟩ := recordAt_eq_some.mp hname
    obtain ⟨n, -, -, -, -, hsession⟩ := id hrecord
    exact ⟨session, ⟨metadata, hrecord⟩, hsession.symm⟩
  have hle := Set.encard_le_encard hsub
  rw [SessionId.toText_injective.injOn.encard_image, ← List.coe_toFinset,
    Set.encard_coe_eq_coe_finsetCard, List.toFinset_card_of_nodup hids, List.length_map] at hle
  exact hle

theorem shows_of_lists {R : Registry} {s : Kernel} {names : List Name} (hnames : s.Lists names) :
    Listed R s (((names.filterMap (recordAt R s)).take maxSessionListEntries).mergeSort
      fun a b => decide (a.startedAt ≤ b.startedAt)) := by
  have hperm := List.mergeSort_perm ((names.filterMap (recordAt R s)).take maxSessionListEntries)
    fun a b => decide (a.startedAt ≤ b.startedAt)
  refine ⟨?_, ?_, ?_, ?_, ?_⟩
  · have htrans : ∀ a b c : SessionMetadata, decide (a.startedAt ≤ b.startedAt) = true →
        decide (b.startedAt ≤ c.startedAt) = true → decide (a.startedAt ≤ c.startedAt) = true := by
      intro a b c hab hbc
      simp only [decide_eq_true_eq] at hab hbc ⊢
      exact UInt64.le_trans hab hbc
    have htotal : ∀ a b : SessionMetadata,
        (decide (a.startedAt ≤ b.startedAt) || decide (b.startedAt ≤ a.startedAt)) = true := by
      intro a b
      simp only [Bool.or_eq_true, decide_eq_true_eq]
      exact UInt64.le_total a.startedAt b.startedAt
    have hsorted := List.pairwise_mergeSort htrans htotal
      ((names.filterMap (recordAt R s)).take maxSessionListEntries)
    exact hsorted.imp fun h => of_decide_eq_true h
  · rw [(hperm.map _).nodup_iff, List.map_take]
    exact (nodup_records hnames.1).sublist (List.take_sublist _ _)
  · intro metadata hmetadata
    obtain ⟨name, -, hname⟩ := List.mem_filterMap.mp
      (List.mem_of_mem_take (hperm.mem_iff.mp hmetadata))
    obtain ⟨session, -, hrecord⟩ := recordAt_eq_some.mp hname
    exact ⟨session, hrecord⟩
  · rw [hperm.length_eq, List.length_take]
    exact Nat.min_le_left _ _
  · intro hfew session metadata hrecord
    have hlen : (names.filterMap (recordAt R s)).length ≤ maxSessionListEntries := by
      exact_mod_cast (length_records_le hnames.1).trans hfew
    rw [hperm.mem_iff, List.take_of_length_le hlen]
    -- The record's file is an entry of the directory, so the listing has it.
    have hentry : (sessionPaths session).metadata ∈ names := by
      obtain ⟨n, hn, -⟩ := id hrecord
      rw [hnames.2, hn]
      rfl
    exact List.mem_filterMap.mpr ⟨_, hentry, recordAt_eq_some.mpr ⟨session, rfl, hrecord⟩⟩

/-- **Listing is exact**: the texts of IDs and the names of records are read back and nothing else
is, distinct sessions share no file, and a listing of a directory with valid records shows them. -/
theorem list_exact :
    (∀ s : SessionId, SessionId.parseBytes s.toText = some s) ∧
    (∀ (encoded : Bytes) (s : SessionId),
      SessionId.parseBytes encoded = some s → s.toText = encoded) ∧
    (∀ (name : Name) (s : SessionId),
      sessionFromMetadataName name = some s ↔ name = (sessionPaths s).metadata) ∧
    (∀ (s : SessionId) (name : Name), name ∈ (sessionPaths s).files →
      (name ≠ (sessionPaths s).metadata → sessionFromMetadataName name = none) ∧
        ∀ pid, sessionFromMetadataName (temporaryName name pid) = none) ∧
    (∀ s s' : SessionId, s ≠ s' → (sessionPaths s).files.Disjoint (sessionPaths s').files) ∧
    ∀ (R : Registry) (i : Proc) (s₀ : Kernel), (∀ session, RecordValid R s₀ session) →
      Halts R.list ∧
        ∀ (log : RunnerLog) (r : Except IoError (List SessionMetadata)),
          Runs (alone i s₀ .none) R.list.run log (.ret r) →
            ((∀ session, R.Fits session) → ∃ sessions, r = .ok sessions) ∧
              ∀ sessions, r = .ok sessions → Listed R s₀ sessions := by
  refine ⟨SessionId.parseBytes_toText, ?_, ?_, ?_, fun s s' h => files_disjoint h, ?_⟩
  · intro encoded s h
    exact (SessionId.parseBytes_eq_some.mp h).symm
  · intro name s
    exact sessionFromMetadataName_eq_some
  · intro s name hname
    exact ⟨sessionFromMetadataName_other hname,
      fun pid => sessionFromMetadataName_temporary pid hname⟩
  · intro R i s₀ hvalid
    refine ⟨halts_list R, fun log r hrun => ?_⟩
    obtain ⟨-, hresult⟩ := log_sound trivial
      (wp_list unobserved_true Faults.honest_none) hrun
    obtain ⟨-, hfound, htotal⟩ := hresult r rfl
    refine ⟨fun hfits => htotal rfl hfits hvalid, fun sessions hsessions => ?_⟩
    obtain ⟨names, hnames, rfl⟩ := hfound sessions hsessions
    exact shows_of_lists hnames

/-! ## A directory with three records -/

namespace Listing

def registry : Registry where
  root := ascii "/root/.afk/run"
  uid := 0
  serde := jsonSerde

def session : SessionId := ⟨List.replicate 16 9, by decide⟩

def older : SessionId := ⟨List.replicate 16 12, by decide⟩

def oldest : SessionId := ⟨List.replicate 16 200, by decide⟩

def record : SessionMetadata := .live session.toText 11 12 50 false

def olderRecord : SessionMetadata := .completed older.toText 40 60 (.code 3) 5 false

def oldestRecord : SessionMetadata := .live oldest.toText 21 22 30 true

/-- The records, the other files of their sessions, and a record that was being replaced. -/
def files : List (Name × Bytes) :=
  [((sessionPaths session).socket, []),
    ((sessionPaths older).metadata, jsonSerde.toVec olderRecord),
    ((sessionPaths session).trace, []),
    ((sessionPaths session).metadata, jsonSerde.toVec record),
    (temporaryName (sessionPaths session).metadata 11, ascii "half"),
    ((sessionPaths older).output, ascii "bytes"),
    ((sessionPaths oldest).metadata, jsonSerde.toVec oldestRecord),
    ((sessionPaths oldest).lock, [])]

def directory : Kernel := .stocked 0 100 files

theorem named_sessions : (files.map Prod.fst).map sessionFromMetadataName =
    [none, some older, none, some session, none, none, some oldest, none] := by decide +kernel

theorem named {s : SessionId} : (sessionPaths s).metadata ∈ files.map Prod.fst ↔
    s = older ∨ s = session ∨ s = oldest := by
  constructor
  · intro hname
    have hfound : some s ∈ (files.map Prod.fst).map sessionFromMetadataName :=
      List.mem_map.mpr ⟨_, hname, sessionFromMetadataName_eq_some.mpr rfl⟩
    rw [named_sessions] at hfound
    simpa using hfound
  · rintro (rfl | rfl | rfl) <;> simp [files]

/-- The records of that directory. -/
theorem hasRecord_iff {s : SessionId} {metadata : SessionMetadata} :
    HasRecord registry directory s metadata ↔ (s = older ∧ metadata = olderRecord) ∨
      (s = session ∧ metadata = record) ∨ (s = oldest ∧ metadata = oldestRecord) := by
  have hnodup : (files.map Prod.fst).Nodup := by decide +kernel
  have holder : HasRecord registry directory older olderRecord :=
    Kernel.stocked_record hnodup rfl rfl (by simp [files, registry])
  have hsession : HasRecord registry directory session record :=
    Kernel.stocked_record hnodup rfl rfl (by simp [files, registry])
  have holdest : HasRecord registry directory oldest oldestRecord :=
    Kernel.stocked_record hnodup rfl rfl (by simp [files, registry])
  constructor
  · intro h
    obtain ⟨n, hn, -⟩ := id h
    have hname := Option.isSome_of_eq_some hn
    rw [directory, Kernel.stocked_dir_isSome, named] at hname
    obtain rfl | rfl | rfl := hname
    · exact .inl ⟨rfl, h.unique holder⟩
    · exact .inr (.inl ⟨rfl, h.unique hsession⟩)
    · exact .inr (.inr ⟨rfl, h.unique holdest⟩)
  · rintro (⟨rfl, rfl⟩ | ⟨rfl, rfl⟩ | ⟨rfl, rfl⟩) <;> assumption

theorem directory_valid (s : SessionId) : RecordValid registry directory s := by
  by_cases hname : (sessionPaths s).metadata ∈ files.map Prod.fst
  · right
    obtain rfl | rfl | rfl := named.mp hname
    · exact ⟨olderRecord, hasRecord_iff.mpr (.inl ⟨rfl, rfl⟩)⟩
    · exact ⟨record, hasRecord_iff.mpr (.inr (.inl ⟨rfl, rfl⟩))⟩
    · exact ⟨oldestRecord, hasRecord_iff.mpr (.inr (.inr ⟨rfl, rfl⟩))⟩
  · left
    rw [← Option.not_isSome_iff_eq_none, directory, Kernel.stocked_dir_isSome]
    exact hname

theorem few_records :
    {s | ∃ metadata, HasRecord registry directory s metadata}.encard ≤ maxSessionListEntries := by
  have hsub : {s | ∃ metadata, HasRecord registry directory s metadata} ⊆
      (({older, session, oldest} : Finset SessionId) : Set SessionId) := by
    rintro s ⟨metadata, hrecord⟩
    obtain ⟨rfl, -⟩ | ⟨rfl, -⟩ | ⟨rfl, -⟩ := hasRecord_iff.mp hrecord <;> simp
  refine (Set.encard_le_encard hsub).trans ?_
  rw [Set.encard_coe_eq_coe_finsetCard]
  exact_mod_cast Finset.card_le_three.trans (by decide)

/-- A listing of that directory shows the records by the start of their sessions. -/
theorem listed_eq {sessions : List SessionMetadata} (h : Listed registry directory sessions) :
    sessions = [oldestRecord, olderRecord, record] := by
  have hmem : ∀ metadata, metadata ∈ sessions ↔
      metadata ∈ [oldestRecord, olderRecord, record] := by
    intro metadata
    rw [h.mem_iff few_records]
    simp only [hasRecord_iff, exists_or, exists_eq_left, List.mem_cons, List.not_mem_nil, or_false]
    tauto
  have hperm : sessions.Perm [oldestRecord, olderRecord, record] :=
    (List.perm_ext_iff_of_nodup (List.Nodup.of_map _ h.distinct) (by decide)).mpr hmem
  -- The three started at three times, so only one order of them is sorted.
  refine hperm.eq_of_pairwise ?_ h.sorted (by decide)
  intro a b ha hb
  rw [hmem] at ha
  simp only [List.mem_cons, List.not_mem_nil, or_false] at ha hb
  obtain rfl | rfl | rfl := ha <;> obtain rfl | rfl | rfl := hb <;> decide

/-- The listing of that directory returns. -/
theorem plays : (registry.list.run.run (Kernel.Stage.outside (.caller 0))
    (directory, files.map Prod.fst)).any (fun result => result.1.isOk) = true := by
  decide +kernel

end Listing

open Listing in
/-- The listing of a directory shows its three records, by their start, and no other file. -/
theorem list_exact_three :
    ∃ log, Runs (alone (.caller 0) directory .none) registry.list.run log
        (.ret (.ok [oldestRecord, olderRecord, record])) ∧
      Listed registry directory [oldestRecord, olderRecord, record] := by
  obtain ⟨⟨r, stage⟩, hplay, hr⟩ := (Option.any_eq_true _ _).mp plays
  obtain ⟨log, hrun, -⟩ := runs_alone Kernel.stocked_covers hplay
  obtain ⟨-, hlisted⟩ := (list_exact.2.2.2.2.2 registry (.caller 0) directory directory_valid).2
    log _ hrun
  cases r with
  | error error => cases hr
  | ok sessions =>
    have hexact := hlisted sessions rfl
    obtain rfl := listed_eq hexact
    exact ⟨log, hrun, hexact⟩

end AfkCli
