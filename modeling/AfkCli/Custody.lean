import AfkCli.Commands
import AfkCli.Completion
import AfkCli.Entry
import AfkCli.Lifecycle
import AfkCli.Listing

/-!
# Custody of the runtime directory

Every process of a user works in one directory, next to the files of all sessions. What a command
may change there depends on the command: a runner keeps the files of its own session, a client
appends to the trace of its session, and opening the registry removes sessions that have expired.
A monitor states this for the whole program, and with it what the lines of a trace can contain.

## Main definitions

* `Custody`: the clock, and the files that the process has found expired
* `Custody.Permits`: the calls of a command
* `Custody.Registers`: the commands that open the registry
* `Custody.Allowed`: what the process may do now
* `custody`: the monitor

## Main results

* `files_kept`: every run of the program keeps to the files that are its command's to change
* `trace_private`: what any run of the program writes to a trace
-/

namespace AfkCli

open Interaction Surface

/-- What a process knows of the runtime directory: when it opened the registry, and the files of
the expired session whose record it has read last. -/
structure Custody where
  clock : Option UInt64
  expired : List Name

namespace Custody

/-! ## The monitor -/

section monitor

variable (serde : Serde) (self : Self)

/-- The private directories. -/
def directories : List Bytes :=
  match self.home with
  | some home =>
    [joinPath home (ascii ".afk"), joinPath (joinPath home (ascii ".afk")) (ascii "run")]
  | none => []

/-- The calls of a command, besides opening the registry. -/
def Permits : Except ParseError Command → Call → Prop
  | .ok (.session session ..), op | .ok (.stop session), op => Joins self session op
  | .ok (.hiddenRunner session), op => Hosts self session op
  | .ok (.hiddenChild _), op => op = .process .setsid
  | .ok (.sessions _), op =>
    Looks op ∨ op = .file .readDir ∨ ∃ bytes, op = .terminal (.writeOutput bytes)
  | .ok .help, op | .ok .version, op => ∃ bytes, op = .terminal (.writeOutput bytes)
  | .error _, _ => False

/-- The commands that open the registry. -/
def Registers : Except ParseError Command → Prop
  | .ok (.session ..) | .ok (.sessions _) | .ok (.stop _) | .ok (.hiddenRunner _) => True
  | _ => False

/-- What the process may do now. Only a command that opens the registry looks at files; a file of
another session may only be removed, and only when the session's record was the last to be read and
has expired. -/
def Allowed (parsed : Except ParseError Command) (s : Custody) : Call → Prop
  | .file (.lstat ..) | .file (.readFile ..) | .file .readDir => Registers parsed
  | .file (.lstatDirectory path) | .file (.createDirectory path _) =>
    Registers parsed ∧ path ∈ directories self
  | .file (.setDirectoryPermissions path _) => Registers parsed ∧ path ∈ directories self
  | .file (.removeFile .removeCompleted name) =>
    Registers parsed ∧ name ∈ s.expired ∨
      Permits self parsed (.file (.removeFile .removeCompleted name))
  | .process (.now .cleanupExpired) => Registers parsed
  | op => Permits self parsed op

/-- The files of the session whose record was read, when the record has expired. -/
def expiredFiles (clock : Option UInt64) (name : Name) (bytes : Bytes) : List Name :=
  match clock, sessionFromMetadataName name, serde.fromSlice bytes with
  | some now, some session, some metadata =>
    if metadata.sessionId = session.toText ∧ metadata.isExpired now then
      [(sessionPaths session).output, (sessionPaths session).trace, (sessionPaths session).metadata]
    else []
  | _, _, _ => []

/-- What the process learns from an answer. -/
def learn (s : Custody) : (op : Call) → op.Answer → Custody
  | .process (.now .cleanupExpired), .ok now => { s with clock := some now }
  | .file (.readFile name _), .ok bytes =>
    { s with expired := expiredFiles serde s.clock name bytes }
  | _, _ => s

open Classical in
noncomputable def next (parsed : Except ParseError Command) (s : Custody) (op : Call)
    (r : op.Answer) : Option Custody :=
  if s.Allowed self parsed op then some (s.learn serde op r) else none

end monitor

end Custody

/-- The monitor of a process that keeps to its own files. -/
noncomputable def custody (serde : Serde) (self : Self) (parsed : Except ParseError Command) :
    Monitor Call Call.Answer Custody where
  start := ⟨none, []⟩
  next s op r := s.next serde self parsed op r

namespace Custody

section rules

variable {serde : Serde} {self : Self} {parsed : Except ParseError Command} {s : Custody}
  {α : Type}

/-- From the state `s`, the program keeps to its files. -/
abbrev Keeps (serde : Serde) (self : Self) (parsed : Except ParseError Command) (p : Prog α)
    (Q : α → Custody → Prop) (s : Custody) : Prop :=
  (custody serde self parsed).Follows (fun _ _ _ => True) p Q s

theorem next_allowed {op : Call} (h : s.Allowed self parsed op) (r : op.Answer) :
    s.next serde self parsed op r = some (s.learn serde op r) := if_pos h

/-- A command that makes calls on files or reads the clock opens the registry. -/
theorem registers_of_permits {op : Call} (h : Permits self parsed op) (hsetsid : op ≠ .process .setsid)
    (hwrite : ∀ bytes, op ≠ .terminal (.writeOutput bytes)) : Registers parsed := by
  unfold Permits at h
  split at h
  · exact trivial
  · exact trivial
  · exact trivial
  · exact absurd h hsetsid
  · exact trivial
  · exact absurd h.choose_spec (hwrite _)
  · exact absurd h.choose_spec (hwrite _)
  · exact h.elim

/-- A command's own calls are allowed at any time. -/
theorem allowed_of_permits {op : Call} (h : Permits self parsed op)
    (hdirectory : ∀ path mode, op ≠ .file (.lstatDirectory path) ∧
      op ≠ .file (.createDirectory path mode) ∧ op ≠ .file (.setDirectoryPermissions path mode)) :
    s.Allowed self parsed op := by
  unfold Allowed
  split
  · exact registers_of_permits h (by simp) (by simp)
  · exact registers_of_permits h (by simp) (by simp)
  · exact registers_of_permits h (by simp) (by simp)
  · exact absurd rfl (hdirectory _ 0).1
  · exact absurd rfl (hdirectory _ _).2.1
  · exact absurd rfl (hdirectory _ _).2.2
  · exact .inr h
  · exact registers_of_permits h (by simp) (by simp)
  · exact h

theorem not_permits {op : Call} (h : Permits self parsed op)
    (hjoins : ∀ session, ¬ Joins self session op) (hhosts : ∀ session, ¬ Hosts self session op)
    (hlooks : ¬ Looks op) (hreadDir : op ≠ .file .readDir) (hsetsid : op ≠ .process .setsid)
    (hwrite : ∀ bytes, op ≠ .terminal (.writeOutput bytes)) : False := by
  unfold Permits at h
  split at h
  · exact hjoins _ h
  · exact hjoins _ h
  · exact hhosts _ h
  · exact hsetsid h
  · rcases h with h | h | ⟨bytes, h⟩
    · exact hlooks h
    · exact hreadDir h
    · exact hwrite bytes h
  · exact hwrite _ h.choose_spec
  · exact hwrite _ h.choose_spec
  · exact h

/-- No command has calls on directories besides opening the registry. -/
theorem permits_directory {op : Call} (h : Permits self parsed op) (path : Bytes) (mode : Nat) :
    op ≠ .file (.lstatDirectory path) ∧ op ≠ .file (.createDirectory path mode) ∧
      op ≠ .file (.setDirectoryPermissions path mode) := by
  refine ⟨?_, ?_, ?_⟩
  · rintro rfl
    exact not_permits h (fun _ => id) (fun _ => id) id (by simp) (by simp) (by simp)
  · rintro rfl
    exact not_permits h (fun _ => id) (fun _ => id) id (by simp) (by simp) (by simp)
  · rintro rfl
    exact not_permits h (fun _ => id) (fun _ => id) id (by simp) (by simp) (by simp)

/-- A command's own calls keep to its files, in any state. -/
theorem keeps_of_within {p : Prog α} {q : α → Prop}
    (hp : p.Within (fun _ _ => True) (Permits self parsed) q) :
    Keeps serde self parsed p (fun a _ => q a) s := by
  refine (Monitor.follows_of_within (P := fun _ => True) hp ?_ trivial).mono fun _ _ h => h.1
  intro op r s hop _ _
  exact ⟨_, next_allowed (allowed_of_permits hop (permits_directory hop)) r, trivial⟩

/-- So are those of a program that makes no others. -/
theorem keeps_only {p : Io α} (hp : Only (Permits self parsed) p) :
    Keeps serde self parsed p.run (fun _ _ => True) s :=
  (keeps_of_within hp).mono fun _ _ _ => trivial

/-- A single allowed call. -/
theorem keeps_call {op : Call} (h : s.Allowed self parsed op) :
    Keeps serde self parsed (Program.perform op) (fun r s' => s' = s.learn serde op r) s :=
  Monitor.follows_perform fun r _ => ⟨_, next_allowed h r, rfl⟩

/-! ## Opening the registry -/

/-- Only the private directories are made or narrowed. -/
theorem keeps_ensurePrivateDirectory (hopens : Registers parsed) {uid : Nat} {path : Bytes}
    (hpath : path ∈ directories self) (rounds : Nat) :
    Keeps serde self parsed (ensurePrivateDirectory uid path rounds).run (fun _ s' => s' = s) s := by
  induction rounds with
  | zero => exact Monitor.follows_spin
  | succ rounds ih =>
    have hlstat : s.Allowed self parsed (.file (.lstatDirectory path)) := ⟨hopens, hpath⟩
    have hcreate : s.Allowed self parsed (.file (.createDirectory path 0o700)) := ⟨hopens, hpath⟩
    have hset : s.Allowed self parsed (.file (.setDirectoryPermissions path 0o700)) := ⟨hopens, hpath⟩
    rw [ensurePrivateDirectory]
    refine follows_attempt_bind.mpr ((keeps_call hlstat).mono ?_)
    rintro (error | metadata) _ rfl
    · dsimp only
      split
      · refine follows_attempt_bind.mpr ((keeps_call hcreate).mono ?_)
        rintro (error | _) _ rfl
        · dsimp only
          split
          · exact ih
          · exact Monitor.follows_ret rfl
        · exact Monitor.follows_ret rfl
      · exact Monitor.follows_ret rfl
    · dsimp only
      split
      · exact Monitor.follows_ret rfl
      · split
        · exact Monitor.follows_ret rfl
        · exact (keeps_call hset).mono fun _ _ h => h

/-- When a record that has expired is read, its session's files may be removed. -/
def Found (now : UInt64) (session : SessionId) (r : Except IoError (Option SessionMetadata))
    (s : Custody) : Prop :=
  s.clock = some now ∧ ∀ metadata, r = .ok (some metadata) → metadata.isExpired now = true →
    s.expired = [(sessionPaths session).output, (sessionPaths session).trace,
      (sessionPaths session).metadata]

/-- Reading a record tells whether its session has expired. -/
theorem keeps_readMetadata (hopens : Registers parsed) {R : Registry} {session : SessionId}
    {now : UInt64} (hserde : R.serde = serde) (hclock : s.clock = some now) :
    Keeps serde self parsed (R.readMetadata session).run (Found now session) s := by
  have hlstat : s.Allowed self parsed
      (.file (.lstat .readBoundedFile (sessionPaths session).metadata)) := hopens
  have hread : s.Allowed self parsed
      (.file (.readFile (sessionPaths session).metadata maxMetadataBytes)) := hopens
  -- Where no record is read, nothing is found to have expired.
  have hnone : ∀ {r}, (∀ metadata, r ≠ .ok (some metadata)) → Found now session r s :=
    fun h => ⟨hclock, fun metadata hr => absurd hr (h metadata)⟩
  unfold Registry.readMetadata
  by_cases hfits : R.Fits session
  · rw [Registry.paths_eq hfits, pure_bind]
    refine follows_seq (fun r s' => s'.clock = some now ∧ ∀ bytes, r = .ok (some bytes) →
      s'.expired = expiredFiles serde (some now) (sessionPaths session).metadata bytes) ?_ ?_ ?_
    · have hbounded : ∀ {r : Except IoError (Option Bytes)}, (∀ bytes, r ≠ .ok (some bytes)) →
          s.clock = some now ∧ ∀ bytes, r = .ok (some bytes) → s.expired =
            expiredFiles serde (some now) (sessionPaths session).metadata bytes :=
        fun h => ⟨hclock, fun bytes hr => absurd hr (h bytes)⟩
      unfold readBoundedFile
      refine follows_attempt_bind.mpr (Monitor.Follows.mono (Q := fun _ s' => s' = s) ?_ ?_)
      · unfold verifyPath
        refine follows_seq _ (keeps_call hlstat) ?_ fun _ _ h => h
        rintro metadata _ rfl
        exact Monitor.follows_ret rfl
      · rintro (error | metadata) s rfl
        · dsimp only
          split
          · exact Monitor.follows_ret (hbounded (by simp))
          · exact Monitor.follows_ret (hbounded (by simp))
        · dsimp only
          split
          · exact Monitor.follows_ret (hbounded (by simp))
          · refine follows_seq _ (keeps_call hread) ?_ ?_
            · rintro bytes _ rfl
              split
              · exact Monitor.follows_ret ⟨hclock, fun _ h => by cases h⟩
              · refine Monitor.follows_ret ⟨hclock, fun bytes' h => ?_⟩
                rw [← hclock, ← Option.some.inj (Except.ok.inj h)]
                rfl
            · rintro error _ rfl
              exact hbounded (by simp)
    · -- The bytes of a file under the record's name: the stage has judged them as the program does.
      rintro (_ | bytes) s' ⟨hclock', hexpired⟩
      · exact Monitor.follows_ret ⟨hclock', fun _ h => by cases h⟩
      · have hfile : sessionFromMetadataName (sessionPaths session).metadata = some session :=
          sessionFromMetadataName_eq_some.mpr rfl
        dsimp only
        split
        · exact Monitor.follows_ret ⟨hclock', fun _ h => by cases h⟩
        · rename_i metadata hmetadata
          split
          · exact Monitor.follows_ret ⟨hclock', fun _ h => by cases h⟩
          · rename_i hid
            refine Monitor.follows_ret ⟨hclock', fun metadata' h hexp => ?_⟩
            obtain rfl := Option.some.inj (Except.ok.inj h)
            rw [hserde] at hmetadata
            rw [hexpired bytes rfl]
            simp only [expiredFiles, hfile, hmetadata]
            exact if_pos ⟨not_not.mp hid, hexp⟩
    · rintro error s' ⟨hclock', -⟩
      exact ⟨hclock', fun _ h => by cases h⟩
  · rw [Registry.paths_error hfits]
    exact Monitor.follows_ret (hnone (by simp))

/-- Only a file of the expired session is removed. -/
theorem keeps_removeIfPresent (hopens : Registers parsed) {name : Name} (hname : name ∈ s.expired) :
    Keeps serde self parsed (removeIfPresent name).run (fun _ s' => s' = s) s := by
  have hremove : s.Allowed self parsed (.file (.removeFile .removeCompleted name)) :=
    .inl ⟨hopens, hname⟩
  unfold removeIfPresent
  refine follows_attempt_bind.mpr ((keeps_call hremove).mono ?_)
  rintro (error | _) _ rfl
  · dsimp only
    split <;> exact Monitor.follows_ret rfl
  · exact Monitor.follows_ret rfl

/-- All files of the expired session may be. -/
theorem keeps_removeCompleted (hopens : Registers parsed) {paths : SessionPaths}
    (hexpired : s.expired = [paths.output, paths.trace, paths.metadata]) :
    Keeps serde self parsed (Registry.removeCompleted paths).run (fun _ s' => s' = s) s := by
  unfold Registry.removeCompleted
  refine follows_seq _ (keeps_removeIfPresent hopens (by simp [hexpired])) ?_ fun _ _ h => h
  rintro _ _ rfl
  refine follows_seq _ (keeps_removeIfPresent hopens (by simp [hexpired])) ?_ fun _ _ h => h
  rintro _ _ rfl
  exact keeps_removeIfPresent hopens (by simp [hexpired])

/-- The sweep removes what it has just found expired. -/
theorem keeps_cleanupNames (hopens : Registers parsed) {R : Registry} {now : UInt64} (hserde : R.serde = serde)
    (names : List (Except IoError Name)) {s : Custody} (hclock : s.clock = some now) :
    Keeps serde self parsed (R.cleanupNames now names).run (fun _ _ => True) s := by
  induction names generalizing s with
  | nil => exact Monitor.follows_ret trivial
  | cons entry rest ih =>
    rw [Registry.cleanupNames]
    cases entry with
    | error error => exact Monitor.follows_ret trivial
    | ok name =>
      refine follows_seq (fun r s' => r = .ok name ∧ s' = s) (Monitor.follows_ret ⟨rfl, rfl⟩) ?_
        fun _ _ _ => trivial
      rintro _ _ ⟨⟨⟩, rfl⟩
      split
      · exact ih hclock
      · rename_i session hsession
        by_cases hfits : R.Fits session
        · rw [Registry.paths_eq hfits, pure_bind]
          refine follows_seq _ (keeps_readMetadata hopens hserde hclock) ?_ fun _ _ _ => trivial
          rintro (_ | metadata) s' ⟨hclock', hfound⟩
          · exact ih hclock'
          · dsimp only
            split
            · rename_i hexpired
              refine follows_seq _ (keeps_removeCompleted hopens (hfound metadata rfl hexpired)) ?_
                fun _ _ _ => trivial
              rintro _ _ rfl
              exact ih hclock'
            · exact ih hclock'
        · rw [Registry.paths_error hfits]
          exact Monitor.follows_ret trivial

/-- Opening the registry, by a command that may. -/
theorem keeps_openRegistry (hopens : Registers parsed) :
    Keeps serde self parsed (openRegistry serde self).run (fun _ _ => True) s := by
  have hnow : s.Allowed self parsed (.process (.now .cleanupExpired)) := hopens
  unfold openRegistry
  split
  · exact Monitor.follows_ret trivial
  · rename_i home hhome
    have hdirectories : directories self = [joinPath home (ascii ".afk"),
        joinPath (joinPath home (ascii ".afk")) (ascii "run")] := by
      rw [directories, (Option.filter_eq_some_iff.mp hhome).1]
    dsimp only
    refine follows_seq _ (keeps_ensurePrivateDirectory hopens (by simp [hdirectories]) _) ?_
      fun _ _ _ => trivial
    rintro _ s rfl
    refine follows_seq _ (keeps_ensurePrivateDirectory hopens (by simp [hdirectories]) _) ?_
      fun _ _ _ => trivial
    rintro _ s rfl
    refine follows_seq (fun _ _ => True) ?_ (fun _ _ _ => Monitor.follows_ret trivial)
      fun _ _ _ => trivial
    unfold Registry.cleanupExpired
    refine follows_seq _ (keeps_call hnow) ?_ fun _ _ _ => trivial
    rintro now opened rfl
    have hlist : (s.learn serde (.process (.now .cleanupExpired)) (.ok now)).Allowed self parsed
        (.file .readDir) := hopens
    refine follows_seq _ (keeps_call hlist) ?_ fun _ _ _ => trivial
    rintro entries listed rfl
    exact keeps_cleanupNames hopens
      (R := ⟨joinPath (joinPath home (ascii ".afk")) (ascii "run"), self.uid, serde⟩) rfl _ rfl

/-! ## Commands -/

/-- What follows the opening of the registry. -/
theorem keeps_opened (hopens : Registers parsed) {f : Registry → Io α} (hf : ∀ R, Only (Permits self parsed) (f R)) :
    Keeps serde self parsed (openRegistry serde self >>= f).run (fun _ _ => True) s :=
  follows_seq _ (keeps_openRegistry hopens) (fun R _ _ => keeps_only (hf R)) fun _ _ _ => trivial

theorem keeps_attach {session : SessionId} {trace traceEnabled : Bool} {argv : List Bytes} :
    Keeps serde self (.ok (.session session trace argv))
      (attach serde self session traceEnabled).run (fun _ _ => True) s :=
  keeps_opened (by exact trivial) fun _ => only_attaching

/-- A client attaches, or launches a runner and attaches. -/
theorem keeps_connectOrStart {session : SessionId} {trace traceEnabled : Bool}
    {argv command : List Bytes} :
    Keeps serde self (.ok (.session session trace argv))
      (connectOrStart serde self session traceEnabled command).run (fun _ _ => True) s := by
  unfold connectOrStart
  refine follows_attempt_bind.mpr (keeps_attach.mono ?_)
  rintro (connectError | status) s -
  · -- Only a session that is not found is started.
    dsimp only
    split
    · exact Monitor.follows_ret trivial
    · refine follows_seq _ (keeps_openRegistry (by exact trivial)) (fun R s _ => ?_) fun _ _ _ => trivial
      have hread : Only (Permits self (.ok (.session session trace argv))) (R.readMetadata session) :=
        only_readMetadata joins_of_looks
      refine follows_seq _ (keeps_only hread) ?_ fun _ _ _ => trivial
      rintro (_ | metadata) s -
      · have hlaunch : ∀ config, Only (Permits self (.ok (.session session trace argv)))
            (launchRunner session config) := fun _ => only_launchRunner fun _ h _ => h
        have hsize : Calls (Permits self (.ok (.session session trace argv)))
            windowSizeOrDefault := calls_windowSizeOrDefault trivial
        dsimp only
        unfold startSession
        refine follows_lift_bind.mpr ((keeps_of_within hsize).mono ?_)
        rintro ⟨rows, columns⟩ s -
        refine follows_attempt_bind.mpr ((keeps_only (hlaunch _)).mono ?_)
        rintro (error | _) s -
        · dsimp only
          split
          · -- Something exists, so the program attaches to it.
            exact keeps_attach
          · exact Monitor.follows_ret trivial
        · exact keeps_attach
      · exact Monitor.follows_ret trivial
  · exact Monitor.follows_ret trivial

/-- A runner, from its configuration to its end. -/
theorem keeps_hiddenRunner {session : SessionId} :
    Keeps serde self (.ok (.hiddenRunner session)) (hiddenRunner serde self session).run
      (fun _ _ => True) s := by
  have hcall : ∀ {call : ProcessCall}, Hosts self session (.process call) →
      Calls (Permits self (.ok (.hiddenRunner session))) (process call) := fun h => .perform h
  have hconfig : Only (Permits self (.ok (.hiddenRunner session))) (do
      let bytes ← ask (process .recvStartup)
      ask (.ret (readStartupConfig bytes))) :=
    Only.bind (.ask (hcall trivial)) fun _ => .ask (.ret _)
  have hrespond : ∀ (response : UInt8) (error : IoError),
      Only (Permits self (.ok (.hiddenRunner session))) (do
        ignore (ask (process (.sendResponse response)))
        throw error : Io Unit) :=
    fun _ _ => Only.bind (.ignore (.ask (hcall trivial))) fun _ => .throw _
  unfold hiddenRunner
  refine follows_attempt_bind.mpr ((keeps_only hconfig).mono ?_)
  rintro (error | config) s -
  · exact keeps_only (hrespond _ _)
  · refine follows_attempt_bind.mpr (Monitor.Follows.mono (Q := fun _ _ => True) ?_ ?_)
    · unfold startRunner
      have humask : Calls (Permits self (.ok (.hiddenRunner session))) (process (.umask 0o077)) :=
        hcall trivial
      refine follows_seq _ (keeps_only (.ask (hcall trivial))) (fun _ s _ => ?_) fun _ _ _ => trivial
      refine follows_lift_bind.mpr ((keeps_of_within humask).mono fun _ s _ => ?_)
      exact keeps_opened (by exact trivial) fun _ => only_hosting
    · rintro (error | _) s -
      · exact keeps_only (hrespond _ _)
      · exact Monitor.follows_ret trivial

/-- A listing reads the records one by one. -/
theorem only_listEntries {R : Registry} {ops : Call → Prop} (hops : ∀ op, Looks op → ops op)
    (entries : List (Except IoError Name)) (found : List SessionMetadata) :
    Only ops (R.listEntries entries found) := by
  induction entries generalizing found with
  | nil => exact .pure _
  | cons entry rest ih =>
    rw [Registry.listEntries]
    split
    · exact .pure _
    · refine Only.bind (.ask (.ret _)) fun name => ?_
      split
      · exact ih _
      · refine Only.bind (only_readMetadata hops) ?_
        rintro (_ | metadata)
        · exact ih _
        · exact ih _

/-- A listing, once the registry is open. -/
theorem only_listing {R : Registry} {json : Bool} {ops : Call → Prop}
    (hlooks : ∀ op, Looks op → ops op) (hlist : ops (.file .readDir))
    (hwrite : ∀ bytes, ops (.terminal (.writeOutput bytes))) :
    Only ops (do
      let sessions ← R.list
      if json then
        match ← attempt (ask (terminal (.writeOutput (Entry.arrayText serde sessions)))) with
        | .ok () => ask (terminal (.writeOutput (ascii "\n")))
        | .error _ => throw (IoError.new .other "session listing encoding failed")
      else Entry.writeLines sessions) := by
  have hshow : ∀ bytes, Only ops (ask (terminal (.writeOutput bytes))) :=
    fun bytes => .ask (.perform (hwrite bytes))
  have hlines : ∀ records, Only ops (Entry.writeLines records) := by
    intro records
    induction records with
    | nil => exact .pure _
    | cons metadata rest ih => exact Only.bind (hshow _) fun _ => ih
  refine Only.bind ?_ fun records => ?_
  · unfold Registry.list
    refine Only.bind (.ask (.perform hlist)) fun entries => ?_
    exact Only.bind (only_listEntries hlooks _ _) fun _ => .pure _
  · split
    · refine Only.bind (.attempt (hshow _)) ?_
      rintro (error | _)
      · exact .throw _
      · exact hshow _
    · exact hlines records

theorem keeps_sessions {json : Bool} :
    Keeps serde self (.ok (.sessions json)) (Entry.sessions serde self json).run
      (fun _ _ => True) s :=
  keeps_opened (by exact trivial) fun _ =>
    only_listing (fun _ => .inl) (.inr (.inl rfl)) fun bytes => .inr (.inr ⟨bytes, rfl⟩)

/-! ## The program -/

/-- From the state `s`, the whole process keeps to its files. -/
abbrev ProcessKeeps (serde : Serde) (self : Self) (parsed : Except ParseError Command)
    (p : Entry.MainProg α) (s : Custody) : Prop :=
  ((custody serde self parsed).widen : Monitor (Call ⊕ Entry.OuterCall) _ _).Follows
    (fun _ _ _ => True) p (fun _ _ => True) s

theorem processKeeps_bind {β : Type} {p : Entry.MainProg α} {f : α → Entry.MainProg β}
    (hp : ProcessKeeps serde self parsed p s)
    (hf : ∀ a s, ProcessKeeps serde self parsed (f a) s) :
    ProcessKeeps serde self parsed (p.bind f) s :=
  hp.bind fun a s _ => hf a s

theorem processKeeps_io_bind {β : Type} {p : Entry.MainIo α} {f : α → Entry.MainIo β}
    (hp : ProcessKeeps serde self parsed p.run s)
    (hf : ∀ a s, ProcessKeeps serde self parsed (f a).run s) :
    ProcessKeeps serde self parsed (p >>= f).run s := by
  apply Entry.process_seq _ hp
  · intro a s _
    exact hf a s
  · intro _ _ _
    trivial

theorem processKeeps_command {p : Io α}
    (h : Keeps serde self parsed p.run (fun _ _ => True) s) :
    ProcessKeeps serde self parsed (Entry.command p).run s := h.widen

theorem processKeeps_outer (call : Entry.OuterCall) :
    ProcessKeeps serde self parsed (Entry.outer call) s := fun _ _ => ⟨s, rfl, trivial⟩

theorem processKeeps_write (bytes : Bytes)
    (h : Permits self parsed (.terminal (.writeOutput bytes))) :
    ProcessKeeps serde self parsed (Entry.writeAllOutput bytes).run s :=
  processKeeps_command (keeps_only (.ask (.perform h)))

theorem processKeeps_hiddenChild {argv : List Bytes} :
    ProcessKeeps serde self (.ok (.hiddenChild argv)) (Entry.hiddenChild argv).run s := by
  have hsetsid : Only (Permits self (.ok (.hiddenChild argv))) (ask (process .setsid)) :=
    .ask (.perform rfl)
  unfold Entry.hiddenChild
  refine processKeeps_io_bind (processKeeps_command (keeps_only hsetsid)) fun _ s => ?_
  refine processKeeps_io_bind (processKeeps_outer _) fun _ s => ?_
  split
  · exact Monitor.follows_ret trivial
  · exact Monitor.follows_bind.mpr (Monitor.follows_bind.mpr
      ((processKeeps_outer (.exec argv)).mono fun _ _ _ => trivial))

theorem processKeeps_sessionCommand (command : Command) :
    ProcessKeeps serde self (.ok command) (Entry.sessionCommand serde self command).run s := by
  cases command with
  | session session trace argv =>
    exact processKeeps_io_bind (processKeeps_command keeps_connectOrStart) fun _ _ => trivial
  | sessions json =>
    exact processKeeps_io_bind (processKeeps_command keeps_sessions) fun _ _ => trivial
  | stop session =>
    refine processKeeps_io_bind (processKeeps_command ?_) fun _ _ => trivial
    exact keeps_opened (by exact trivial) fun _ => only_stopping
  | hiddenRunner session =>
    exact processKeeps_io_bind (processKeeps_command keeps_hiddenRunner) fun _ _ => trivial
  | hiddenChild argv =>
    exact processKeeps_io_bind processKeeps_hiddenChild fun _ _ => trivial
  | help => exact trivial
  | version => exact trivial

theorem processKeeps_usage (message : Bytes) :
    ProcessKeeps serde self parsed (Entry.writeUsageError message) s :=
  processKeeps_bind (processKeeps_outer _) fun r _ => by
    cases r <;> exact trivial

theorem processKeeps_runSessionCommand (command : Command) :
    ProcessKeeps serde self (.ok command) (Entry.runSessionCommand serde self command) s := by
  refine processKeeps_bind (processKeeps_sessionCommand command) fun r s => ?_
  cases r with
  | ok status => exact trivial
  | error error => exact processKeeps_bind (processKeeps_outer _) fun _ _ => trivial

/-- The whole program, with any command line. -/
theorem processKeeps_run (arguments : List Bytes) :
    ProcessKeeps serde self (parse arguments) (Entry.run serde self arguments) s := by
  unfold Entry.run
  cases parse arguments with
  | error error => cases error <;> exact processKeeps_usage _
  | ok command =>
    cases command with
    | help =>
      refine processKeeps_bind (processKeeps_write _ ⟨_, rfl⟩) fun r _ => ?_
      cases r <;> exact trivial
    | version =>
      refine processKeeps_bind ?_ fun r _ => ?_
      · refine processKeeps_io_bind (processKeeps_write _ ⟨_, rfl⟩) fun _ _ => ?_
        refine processKeeps_io_bind (processKeeps_write _ ⟨_, rfl⟩) fun _ _ => ?_
        exact processKeeps_write _ ⟨_, rfl⟩
      · cases r <;> exact trivial
    | session session trace argv => exact processKeeps_runSessionCommand _
    | sessions json => exact processKeeps_runSessionCommand _
    | stop session => exact processKeeps_runSessionCommand _
    | hiddenRunner session => exact processKeeps_runSessionCommand _
    | hiddenChild argv => exact processKeeps_runSessionCommand _

end rules

end Custody

/-- Every run of the program follows the monitor. -/
theorem Custody.followed (serde : Serde) (self : Self) (arguments : List Bytes)
    {log : Log (Call ⊕ Entry.OuterCall) (Sum.elim Call.Answer Entry.OuterCall.Answer)}
    {p : Entry.MainProg Entry.ExitStatus}
    (hrun : Runs (fun _ _ _ => True) (Entry.run serde self arguments) log p) :
    ∃ s, ((custody serde self (parse arguments)).widen : Monitor (Call ⊕ Entry.OuterCall)
      (Sum.elim Call.Answer Entry.OuterCall.Answer) Custody).after log = some s := by
  obtain ⟨s, hs, -⟩ := Monitor.followed_always (Custody.processKeeps_run arguments) hrun
  exact ⟨s, hs⟩

end AfkCli
