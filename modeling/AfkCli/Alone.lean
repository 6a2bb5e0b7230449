import AfkCli.Effect
import AfkCli.Footprint
import AfkCli.Hoare
import AfkCli.LoopLog
import AfkCli.Registry

/-!
# A process alone

One process runs on the system while no other does, and calls may fail. The state of the system is
then a function of the process's log: a call that succeeded had its effect, and a call that failed
had none. Time passes when the clock is read.

## Main definitions

* `Kernel.next`: the state after an answered call
* `Kernel.Admits`: what the system may answer, given the calls that may fail
* `after`, `alone`: the state after a log, and the runs of one process

## Main results

* `Kernel.next_effect`: an answered call changes the files in one of the nine ways
* `Kernel.Admits.lstat`, `Kernel.Admits.createNew`, …: what an answer says of the state
* `wp_alone`: the rule for a call
-/

namespace AfkCli

open Interaction Function

/-! ## Failures -/

/-- The calls that create an entry, and fail when it exists. -/
def Call.Creates : Call → Prop
  | .file (.createNew ..) | .file (.createDirectory ..) => True
  | _ => False

/-- The answer does not say that an entry exists. -/
def Call.Plain (op : Call) (r : op.Answer) : Prop :=
  ∀ error, op.error? r = some error → error.kind ≠ .alreadyExists

/-- The calls that may fail, and how. -/
abbrev Faults := Call → IoError → Prop

namespace Faults

/-- No call fails but for the state of the system. -/
def none : Faults := fun _ _ => False

/-- That a file is missing, or is there, is said only when it is so. -/
def Honest (F : Faults) : Prop :=
  ∀ op error, F op error → error.kind ≠ .notFound ∧ error.kind ≠ .alreadyExists

theorem honest_none : none.Honest := fun _ _ h => h.elim

end Faults

/-! ## The state after a call -/

namespace Kernel

/-- The entries of the runtime directory, in some order. -/
def Lists (s : Kernel) (names : List Name) : Prop :=
  names.Nodup ∧ ∀ name, name ∈ names ↔ (s.dir name).isSome

/-- The state after an answered call: a reading of the clock moves it on, a call that failed changed
nothing, and any other call had its effect. -/
def next (i : Proc) (s : Kernel) : (op : Call) → op.Answer → Kernel
  | .process (.now _), .ok now => { s with clock := now }
  | op, r =>
    if (op.error? r).isSome then s
    else
      match s.step i op r with
      | some (_, s') => s'
      | none => s

/-- What the system answers: the clock does not go back, a listing is a listing, and the outside is
anything. -/
def Answers (i : Proc) (s : Kernel) : (op : Call) → op.Answer → Prop
  | .process (.now _), r => ∃ now, s.clock ≤ now ∧ r = .ok now
  | .file .readDir, r => ∃ names, s.Lists names ∧ r = .ok (names.map .ok)
  | op, r => ∃ s', s.step i op r = some (r, s')

/-- What a call may be answered. Only the creation of an entry fails because something exists. -/
structure Admits (i : Proc) (s : Kernel) (F : Faults) (op : Call) (r : op.Answer) : Prop where
  answered : s.Answers i op r ∨ ∃ error, op.error? r = some error ∧ F op error
  creates : ∀ error, op.error? r = some error → error.kind = .alreadyExists → op.Creates

variable {i : Proc} {s : Kernel} {F : Faults}

/-- An answered call changes the files in one of the nine ways, or not at all. -/
theorem next_effect (i : Proc) (s : Kernel) (op : Call) (r : op.Answer) :
    Effect i op s (s.next i op r) := by
  unfold next
  split
  · exact .quiet ⟨rfl, rfl, rfl, Nat.le_refl _⟩
  · split
    · exact .quiet (.refl s)
    · split
      · rename_i s' hstep
        exact effect (A := Outside.any) (F := .none) (.inl ⟨_, trivial, hstep⟩)
      · exact .quiet (.refl s)

/-! ## What an answer says -/

theorem fileStep_error {call : FileCall} {outside : call.Answer} {error : IoError}
    (h : call.error? (s.fileStep i call outside).1 = some error) :
    (s.fileStep i call outside).2 = s := by
  cases call <;> simp only [fileStep] at h ⊢ <;> repeat' split at h
  all_goals first | rfl | (cases h; done) | simp_all

theorem socketStep_error {call : SocketCall} {outside : call.Answer} {error : IoError}
    (h : call.error? (s.socketStep i call outside).1 = some error) :
    (s.socketStep i call outside).2 = s := by
  cases call <;> simp only [socketStep] at h ⊢ <;> repeat' split at h
  all_goals first | rfl | (cases h; done) | simp_all

/-- A call on files failed, or did what the system does. -/
theorem Admits.file {call : FileCall} {r : call.Answer} (h : s.Admits i F (.file call) r)
    (hcall : call ≠ .readDir) :
    (∃ error, call.error? r = some error ∧ F (.file call) error ∧ s.next i (.file call) r = s) ∨
      s.fileStep i call r = (r, s.next i (.file call) r) := by
  have hnext : s.next i (.file call) r =
      if (call.error? r).isSome then s else (s.fileStep i call r).2 := rfl
  obtain h | ⟨error, hr, hF⟩ := h.answered
  · right
    have hstep : ∃ s', some (s.fileStep i call r) = some (r, s') := by
      cases call <;> first | exact h | exact absurd rfl hcall
    obtain ⟨s', hs'⟩ := hstep
    have hfst : (s.fileStep i call r).1 = r := congrArg Prod.fst (Option.some.inj hs')
    refine Prod.ext hfst ?_
    rw [hnext]
    split
    · rename_i hfailed
      obtain ⟨error, herror⟩ := Option.isSome_iff_exists.mp hfailed
      rw [← hfst] at herror
      exact fileStep_error herror
    · rfl
  · left
    refine ⟨error, hr, hF, ?_⟩
    rw [hnext, if_pos (by rw [show call.error? r = some error from hr]; rfl)]

/-- A call on sockets failed, or did what the system does. -/
theorem Admits.socket {call : SocketCall} {r : call.Answer} (h : s.Admits i F (.socket call) r) :
    (∃ error, call.error? r = some error ∧ F (.socket call) error ∧
        s.next i (.socket call) r = s) ∨
      s.socketStep i call r = (r, s.next i (.socket call) r) := by
  have hnext : s.next i (.socket call) r =
      if (call.error? r).isSome then s else (s.socketStep i call r).2 := rfl
  obtain ⟨s', hs'⟩ | ⟨error, hr, hF⟩ := h.answered
  · right
    have hstep : s.socketStep i call r = (r, s') := Option.some.inj hs'
    have hfst : (s.socketStep i call r).1 = r := congrArg Prod.fst hstep
    refine Prod.ext hfst ?_
    rw [hnext]
    split
    · rename_i hfailed
      obtain ⟨error, herror⟩ := Option.isSome_iff_exists.mp hfailed
      rw [← hfst] at herror
      exact socketStep_error herror
    · rfl
  · left
    refine ⟨error, hr, hF, ?_⟩
    rw [hnext, if_pos (by rw [show call.error? r = some error from hr]; rfl)]

namespace Admits

variable {site : Site} {name source target : Name} {fd : Fd} {mode limit : Nat} {bytes : Bytes}

theorem lstat {r : Except IoError Stat} (h : s.Admits i F (.file (.lstat site name)) r) :
    s.next i (.file (.lstat site name)) r = s ∧
      ((∃ error, r = .error error ∧ F (.file (.lstat site name)) error) ∨
        (s.dir name = none ∧ r = .error notFound) ∨
        ∃ n, s.dir name = some n ∧ r = .ok (s.inode n).stat) := by
  obtain ⟨error, hr, hF, hs⟩ | hstep := h.file (by rintro ⟨⟩)
  · exact ⟨hs, .inl ⟨error, errorOf_eq_some.mp hr, hF⟩⟩
  · simp only [fileStep] at hstep
    split at hstep <;> obtain ⟨hr, hs⟩ := Prod.mk.inj hstep
    · rename_i hnone
      exact ⟨hs.symm, .inr (.inl ⟨hnone, hr.symm⟩)⟩
    · rename_i n hsome
      exact ⟨hs.symm, .inr (.inr ⟨n, hsome, hr.symm⟩)⟩

theorem readFile {r : Except IoError Bytes} (h : s.Admits i F (.file (.readFile name limit)) r) :
    s.next i (.file (.readFile name limit)) r = s ∧
      ((∃ error, r = .error error ∧ F (.file (.readFile name limit)) error) ∨
        (s.dir name = none ∧ r = .error notFound) ∨
        ∃ n, s.dir name = some n ∧
          ((s.inode n).kind = .regular → r = .ok ((s.inode n).bytes.take (limit + 1)))) := by
  obtain ⟨error, hr, hF, hs⟩ | hstep := h.file (by rintro ⟨⟩)
  · exact ⟨hs, .inl ⟨error, errorOf_eq_some.mp hr, hF⟩⟩
  · simp only [fileStep] at hstep
    split at hstep
    · rename_i hnone
      obtain ⟨hr, hs⟩ := Prod.mk.inj hstep
      exact ⟨hs.symm, .inr (.inl ⟨hnone, hr.symm⟩)⟩
    · rename_i n hsome
      split at hstep <;> obtain ⟨hr, hs⟩ := Prod.mk.inj hstep
      · exact ⟨hs.symm, .inr (.inr ⟨n, hsome, fun _ => hr.symm⟩)⟩
      · rename_i hkind
        exact ⟨hs.symm, .inr (.inr ⟨n, hsome, fun h => absurd h hkind⟩)⟩

theorem createNew {r : Except IoError Fd} (h : s.Admits i F (.file (.createNew name mode)) r) :
    (∃ error, r = .error error ∧ s.next i (.file (.createNew name mode)) r = s ∧
        (F (.file (.createNew name mode)) error ∨ error = fileExists ∧ (s.dir name).isSome)) ∨
      s.dir name = none ∧ r = .ok s.fresh ∧
        s.next i (.file (.createNew name mode)) r = s.create name (s.newFile i mode) := by
  obtain ⟨error, hr, hF, hs⟩ | hstep := h.file (by rintro ⟨⟩)
  · exact .inl ⟨error, errorOf_eq_some.mp hr, hs, .inl hF⟩
  · simp only [fileStep] at hstep
    split at hstep <;> obtain ⟨hr, hs⟩ := Prod.mk.inj hstep
    · rename_i hnone
      exact .inr ⟨hnone, hr.symm, hs.symm⟩
    · rename_i n hsome
      exact .inl ⟨fileExists, hr.symm, hs.symm, .inr ⟨rfl, by rw [hsome]; rfl⟩⟩

theorem writeAll {r : Except IoError Unit} (h : s.Admits i F (.file (.writeAll site fd bytes)) r) :
    (∃ error, r = .error error ∧ s.next i (.file (.writeAll site fd bytes)) r = s ∧
        F (.file (.writeAll site fd bytes)) error) ∨
      r = .ok () ∧ s.next i (.file (.writeAll site fd bytes)) r =
        s.modify fd fun node => { node with bytes := node.bytes ++ bytes } := by
  obtain ⟨error, hr, hF, hs⟩ | hstep := h.file (by rintro ⟨⟩)
  · exact .inl ⟨error, errorOf_eq_some.mp hr, hs, hF⟩
  · obtain ⟨hr, hs⟩ := Prod.mk.inj hstep
    exact .inr ⟨hr.symm, hs.symm⟩

theorem syncAll {r : Except IoError Unit} (h : s.Admits i F (.file (.syncAll fd)) r) :
    s.next i (.file (.syncAll fd)) r = s ∧
      ((∃ error, r = .error error ∧ F (.file (.syncAll fd)) error) ∨ r = .ok ()) := by
  obtain ⟨error, hr, hF, hs⟩ | hstep := h.file (by rintro ⟨⟩)
  · exact ⟨hs, .inl ⟨error, errorOf_eq_some.mp hr, hF⟩⟩
  · obtain ⟨hr, hs⟩ := Prod.mk.inj hstep
    exact ⟨hs.symm, .inr hr.symm⟩

theorem rename {r : Except IoError Unit} (h : s.Admits i F (.file (.rename source target)) r) :
    (∃ error, r = .error error ∧ s.next i (.file (.rename source target)) r = s ∧
        (F (.file (.rename source target)) error ∨ error = notFound ∧ s.dir source = none)) ∨
      ∃ n, s.dir source = some n ∧ r = .ok () ∧ s.next i (.file (.rename source target)) r =
        { s with dir := update (update s.dir source none) target (some n) } := by
  obtain ⟨error, hr, hF, hs⟩ | hstep := h.file (by rintro ⟨⟩)
  · exact .inl ⟨error, errorOf_eq_some.mp hr, hs, .inl hF⟩
  · simp only [fileStep] at hstep
    split at hstep <;> obtain ⟨hr, hs⟩ := Prod.mk.inj hstep
    · rename_i hnone
      exact .inl ⟨notFound, hr.symm, hs.symm, .inr ⟨rfl, hnone⟩⟩
    · rename_i n hsome
      exact .inr ⟨n, hsome, hr.symm, hs.symm⟩

theorem removeFile {r : Except IoError Unit} (h : s.Admits i F (.file (.removeFile site name)) r) :
    (∃ error, r = .error error ∧ s.next i (.file (.removeFile site name)) r = s ∧
        (F (.file (.removeFile site name)) error ∨ error = notFound ∧ s.dir name = none ∨
          error = isDirectory ∧ ∃ n, s.dir name = some n ∧ (s.inode n).kind = .directory)) ∨
      ∃ n, s.dir name = some n ∧ r = .ok () ∧
        s.next i (.file (.removeFile site name)) r = s.unlink name := by
  obtain ⟨error, hr, hF, hs⟩ | hstep := h.file (by rintro ⟨⟩)
  · exact .inl ⟨error, errorOf_eq_some.mp hr, hs, .inl hF⟩
  · simp only [fileStep] at hstep
    split at hstep
    · rename_i hnone
      obtain ⟨hr, hs⟩ := Prod.mk.inj hstep
      exact .inl ⟨notFound, hr.symm, hs.symm, .inr (.inl ⟨rfl, hnone⟩)⟩
    · rename_i n hsome
      split at hstep <;> obtain ⟨hr, hs⟩ := Prod.mk.inj hstep
      · rename_i hkind
        exact .inl ⟨isDirectory, hr.symm, hs.symm, .inr (.inr ⟨rfl, n, hsome, hkind⟩)⟩
      · exact .inr ⟨n, hsome, hr.symm, hs.symm⟩

theorem setPermissions {r : Except IoError Unit}
    (h : s.Admits i F (.file (.setPermissions name mode)) r) :
    (∃ error, r = .error error ∧ s.next i (.file (.setPermissions name mode)) r = s ∧
        (F (.file (.setPermissions name mode)) error ∨ error = notFound ∧ s.dir name = none)) ∨
      ∃ n, s.dir name = some n ∧ r = .ok () ∧ s.next i (.file (.setPermissions name mode)) r =
        s.modify n fun node => { node with mode } := by
  obtain ⟨error, hr, hF, hs⟩ | hstep := h.file (by rintro ⟨⟩)
  · exact .inl ⟨error, errorOf_eq_some.mp hr, hs, .inl hF⟩
  · simp only [fileStep] at hstep
    split at hstep <;> obtain ⟨hr, hs⟩ := Prod.mk.inj hstep
    · rename_i hnone
      exact .inl ⟨notFound, hr.symm, hs.symm, .inr ⟨rfl, hnone⟩⟩
    · rename_i n hsome
      exact .inr ⟨n, hsome, hr.symm, hs.symm⟩

theorem bind {r : Except IoError Fd} (h : s.Admits i F (.socket (.bind name)) r) :
    (∃ error, r = .error error ∧ s.next i (.socket (.bind name)) r = s ∧
        (F (.socket (.bind name)) error ∨ error = addrInUse ∧ (s.dir name).isSome)) ∨
      s.dir name = none ∧ r = .ok s.fresh ∧
        s.next i (.socket (.bind name)) r = s.create name (s.newSocket i) := by
  obtain ⟨error, hr, hF, hs⟩ | hstep := h.socket
  · exact .inl ⟨error, errorOf_eq_some.mp hr, hs, .inl hF⟩
  · simp only [socketStep] at hstep
    split at hstep <;> obtain ⟨hr, hs⟩ := Prod.mk.inj hstep
    · rename_i hnone
      exact .inr ⟨hnone, hr.symm, hs.symm⟩
    · rename_i n hsome
      exact .inl ⟨addrInUse, hr.symm, hs.symm, .inr ⟨rfl, by rw [hsome]; rfl⟩⟩

theorem connect {r : Except IoError Fd} (h : s.Admits i F (.socket (.connect name)) r) :
    (∃ error, r = .error error ∧ s.next i (.socket (.connect name)) r = s ∧
        (F (.socket (.connect name)) error ∨ error = notFound ∧ s.dir name = none ∨
          error = connectionRefused ∧
            ∃ n, s.dir name = some n ∧ (s.inode n).listener ≠ .listening)) ∨
      ∃ n, s.dir name = some n ∧ (s.inode n).listener = .listening ∧ r = .ok s.fresh ∧
        s.next i (.socket (.connect name)) r = { s with fresh := s.fresh + 1 } := by
  obtain ⟨error, hr, hF, hs⟩ | hstep := h.socket
  · exact .inl ⟨error, errorOf_eq_some.mp hr, hs, .inl hF⟩
  · simp only [socketStep] at hstep
    split at hstep
    · rename_i hnone
      obtain ⟨hr, hs⟩ := Prod.mk.inj hstep
      exact .inl ⟨notFound, hr.symm, hs.symm, .inr (.inl ⟨rfl, hnone⟩)⟩
    · rename_i n hsome
      split at hstep <;> obtain ⟨hr, hs⟩ := Prod.mk.inj hstep
      · rename_i hlistening
        exact .inr ⟨n, hsome, hlistening, hr.symm, hs.symm⟩
      · rename_i hlistening
        exact .inl ⟨connectionRefused, hr.symm, hs.symm, .inr (.inr ⟨rfl, n, hsome, hlistening⟩)⟩

theorem peerUid {stream : Fd} {r : Except IoError Nat}
    (h : s.Admits i F (.socket (.peerUid stream)) r) :
    s.next i (.socket (.peerUid stream)) r = s ∧
      ((∃ error, r = .error error ∧ F (.socket (.peerUid stream)) error) ∨ r = .ok s.uid) := by
  obtain ⟨error, hr, hF, hs⟩ | hstep := h.socket
  · exact ⟨hs, .inl ⟨error, errorOf_eq_some.mp hr, hF⟩⟩
  · obtain ⟨hr, hs⟩ := Prod.mk.inj hstep
    exact ⟨hs.symm, .inr hr.symm⟩

theorem now {site : Site} {r : Except IoError UInt64}
    (h : s.Admits i F (.process (.now site)) r) :
    (∃ error, r = .error error ∧ s.next i (.process (.now site)) r = s ∧
        F (.process (.now site)) error) ∨
      ∃ now, s.clock ≤ now ∧ r = .ok now ∧
        s.next i (.process (.now site)) r = { s with clock := now } := by
  obtain ⟨now, hle, rfl⟩ | ⟨error, hr, hF⟩ := h.answered
  · exact .inr ⟨now, hle, rfl, rfl⟩
  · obtain rfl := errorOf_eq_some.mp hr
    exact .inl ⟨error, rfl, rfl, hF⟩

theorem readDir {r : Except IoError (List (Except IoError Name))}
    (h : s.Admits i F (.file .readDir) r) :
    s.next i (.file .readDir) r = s ∧
      ((∃ error, r = .error error ∧ F (.file .readDir) error) ∨
        ∃ names, s.Lists names ∧ r = .ok (names.map .ok)) := by
  obtain ⟨names, hnames, rfl⟩ | ⟨error, hr, hF⟩ := h.answered
  · exact ⟨rfl, .inr ⟨names, hnames, rfl⟩⟩
  · obtain rfl := errorOf_eq_some.mp hr
    exact ⟨rfl, .inl ⟨error, rfl, hF⟩⟩

end Admits

end Kernel

/-! ## Runs -/

/-- The state after a log. -/
def after (i : Proc) (s₀ : Kernel) : RunnerLog → Kernel
  | [] => s₀
  | e :: log => (after i s₀ log).next i e.op e.answer

/-- What the system may answer a process that runs alone from a state. -/
def alone (i : Proc) (s₀ : Kernel) (F : Faults) : Answers Call Call.Answer :=
  fun log op r => (after i s₀ log).Admits i F op r

/-- A property of logs that looks only at what the runner answers its launcher. -/
def Unobserved (Good : RunnerLog → Prop) : Prop :=
  ∀ op r log, (∀ response, op ≠ .process (.sendResponse response)) → Good log →
    Good (⟨op, r⟩ :: log)

theorem unobserved_true : Unobserved fun _ => True := fun _ _ _ _ _ => trivial

/-- The discipline of a process alone that keeps a property of its log. -/
abbrev solo (i : Proc) (s₀ : Kernel) (F : Faults) (Good : RunnerLog → Prop) :
    Discipline (logMachine (alone i s₀ F)) :=
  keeping (alone i s₀ F) Good

section rules

variable {i : Proc} {s₀ : Kernel} {F : Faults} {Good : RunnerLog → Prop} {log : RunnerLog}

@[simp] theorem after_nil : after i s₀ [] = s₀ := rfl

@[simp] theorem after_cons (e : RunnerEvent) :
    after i s₀ (e :: log) = (after i s₀ log).next i e.op e.answer := rfl

/-- The rule for a call: what the system may answer, and the state it leaves. -/
theorem wp_alone (hgood : Unobserved Good) {op : Call} {Q : op.Answer → RunnerLog → Prop}
    (hop : ∀ response, op ≠ .process (.sendResponse response))
    (h : ∀ r, (after i s₀ log).Admits i F op r → Q r (⟨op, r⟩ :: log)) :
    (solo i s₀ F Good).wp () (Program.perform op) Q log := by
  refine Discipline.wp_call (fun log' => log' = log) rfl keeping_stable ?_
  rintro log' n rfl hinv - -
  refine ⟨fun r _ => hgood op r log' hop hinv, ?_⟩
  rintro r log'' ⟨hr, rfl⟩
  exact h r hr

end rules

/-! ## Playing a process alone -/

/-- The names a call may add to the directory. -/
def Call.names : Call → List Name
  | .file (.createNew name _) | .file (.rename _ name) | .socket (.bind name) => [name]
  | _ => []

namespace Kernel

/-- A state, and names among which are those of its entries. -/
abbrev Stage := Kernel × List Name

/-- No time passes, and a listing is of the names that are entries. -/
def Stage.given (stage : Stage) : (op : Call) → Option op.Answer
  | .process (.now _) => some (.ok stage.1.clock)
  | .file .readDir =>
    some (.ok ((stage.2.dedup.filter fun name => (stage.1.dir name).isSome).map .ok))
  | _ => none

/-- An answer of the system, where the outside would answer `told`. -/
def Stage.answered (i : Proc) (stage : Stage) (op : Call) (told : op.Answer) : op.Answer :=
  match stage.given op with
  | some r => r
  | none =>
    match stage.1.step i op told with
    | some (r, _) => r
    | none => told

/-- An answer of the system; outside nothing happens. -/
def Stage.answer (i : Proc) (stage : Stage) (op : Call) : op.Answer :=
  stage.answered i op (quietAnswer op)

/-- A system on which process `i` runs alone. -/
def Stage.outside (i : Proc) (stage : Stage) (op : Call) : op.Answer × Stage :=
  (stage.answer i op, stage.1.next i op (stage.answer i op), op.names ++ stage.2)

/-- The names cover the entries, and the process waits for no launcher and no runner. -/
structure Stage.Covers (stage : Stage) (i : Proc) : Prop where
  entries : ∀ name, (stage.1.dir name).isSome → name ∈ stage.2
  startup : ∀ n, i = .runner n → (stage.1.startup n).isSome
  response : ∀ n, i = .caller n → (stage.1.response n).isSome

/-- The start-up channels of two states, where both are open. -/
structure Channels (s s' : Kernel) : Prop where
  startup : ∀ n, (s.startup n).isSome → (s'.startup n).isSome
  response : ∀ n, (s.response n).isSome → (s'.response n).isSome

theorem Channels.refl (s : Kernel) : Channels s s := ⟨fun _ => id, fun _ => id⟩

theorem channels_file {i : Proc} {s : Kernel} (call : FileCall) (outside : call.Answer) :
    Channels s (s.fileStep i call outside).2 := by
  cases call <;> simp only [fileStep] <;> repeat' split
  all_goals exact ⟨fun _ => id, fun _ => id⟩

theorem channels_socket {i : Proc} {s : Kernel} (call : SocketCall) (outside : call.Answer) :
    Channels s (s.socketStep i call outside).2 := by
  cases call <;> simp only [socketStep] <;> repeat' split
  all_goals exact ⟨fun _ => id, fun _ => id⟩

theorem channels_process {i : Proc} {s s' : Kernel} {call : ProcessCall}
    {outside r : call.Answer} (h : s.processStep i call outside = some (r, s')) :
    Channels s s' := by
  cases call <;> simp only [processStep] at h <;> repeat' split at h
  all_goals
    simp only [Option.some.injEq, Prod.mk.injEq, reduceCtorEq] at h
    try obtain ⟨-, rfl⟩ := h
    try exact ⟨fun _ => id, fun _ => id⟩
  · refine ⟨fun m hm => ?_, fun _ => id⟩
    simp only [update_apply]
    split
    · rfl
    · exact hm
  · refine ⟨fun _ => id, fun m hm => ?_⟩
    simp only [update_apply]
    split
    · rfl
    · exact hm

theorem channels_step {i : Proc} {s s' : Kernel} {op : Call} {outside r : op.Answer}
    (h : s.step i op outside = some (r, s')) : Channels s s' := by
  cases op with
  | file call =>
    obtain rfl : _ = s' := congrArg Prod.snd (step_file h)
    exact channels_file call outside
  | socket call =>
    obtain rfl : _ = s' := congrArg Prod.snd (step_socket h)
    exact channels_socket call outside
  | process call => exact channels_process h
  | terminal call => exact (step_terminal h).2 ▸ .refl s
  | note note => exact step_note h ▸ .refl s

/-- No call closes a start-up channel. -/
theorem channels_next (i : Proc) (s : Kernel) (op : Call) (r : op.Answer) :
    Channels s (s.next i op r) := by
  unfold next
  split
  · exact ⟨fun _ => id, fun _ => id⟩
  · split
    · exact .refl s
    · split
      · rename_i hstep
        exact channels_step hstep
      · exact .refl s

/-- What an answered call adds to the directory is among its names. -/
theorem dir_next {i : Proc} {s : Kernel} {op : Call} {r : op.Answer} {name : Name}
    (h : ((s.next i op r).dir name).isSome) : (s.dir name).isSome ∨ name ∈ op.names := by
  obtain ⟨n, hn⟩ := Option.isSome_iff_exists.mp h
  obtain hold | ⟨-, -, ⟨mode, rfl, -⟩ | ⟨rfl, -⟩⟩ | ⟨source, rfl, -⟩ := (next_effect i s op r).appears hn
  · exact .inl (by rw [hold]; rfl)
  · exact .inr (by simp [Call.names])
  · exact .inr (by simp [Call.names])
  · exact .inr (by simp [Call.names])

theorem Stage.Covers.next {i : Proc} {stage : Stage} (h : stage.Covers i) (op : Call)
    (r : op.Answer) : Stage.Covers (stage.1.next i op r, op.names ++ stage.2) i where
  entries name hname := by
    obtain hold | hnew := dir_next hname
    · exact List.mem_append_right _ (h.entries name hold)
    · exact List.mem_append_left _ hnew
  startup n hn := (channels_next i stage.1 op r).startup n (h.startup n hn)
  response n hn := (channels_next i stage.1 op r).response n (h.response n hn)

/-- Nothing waits on an open channel. -/
theorem step_isSome {i : Proc} {stage : Stage} (h : stage.Covers i) (op : Call)
    (outside : op.Answer) : (stage.1.step i op outside).isSome := by
  cases op with
  | file call => rfl
  | socket call => rfl
  | terminal call => rfl
  | note note => rfl
  | process call =>
    cases i with
    | caller n =>
      obtain ⟨response, hresponse⟩ := Option.isSome_iff_exists.mp (h.response n rfl)
      cases call <;> simp only [step, processStep, hresponse]
      all_goals first | rfl | (split <;> rfl)
    | runner n =>
      obtain ⟨bytes, hbytes⟩ := Option.isSome_iff_exists.mp (h.startup n rfl)
      cases call <;> simp only [step, processStep, hbytes]
      all_goals first | rfl | (split <;> rfl)

theorem fileStep_again {i : Proc} {s s' : Kernel} {call : FileCall} {outside r : call.Answer}
    (h : s.fileStep i call outside = (r, s')) : s.fileStep i call r = (r, s') := by
  obtain ⟨hr, hs⟩ := Prod.ext_iff.mp h
  cases call <;> simp only [fileStep] at hr hs ⊢ <;> repeat' split at hr
  all_goals simp_all

theorem socketStep_again {i : Proc} {s s' : Kernel} {call : SocketCall} {outside r : call.Answer}
    (h : s.socketStep i call outside = (r, s')) : s.socketStep i call r = (r, s') := by
  obtain ⟨hr, hs⟩ := Prod.ext_iff.mp h
  cases call <;> simp only [socketStep] at hr hs ⊢ <;> repeat' split at hr
  all_goals simp_all

theorem processStep_again {i : Proc} {s s' : Kernel} {call : ProcessCall}
    {outside r : call.Answer} (h : s.processStep i call outside = some (r, s')) :
    s.processStep i call r = some (r, s') := by
  cases call <;> simp only [processStep] at h ⊢ <;> repeat' split at h
  all_goals
    simp only [Option.some.injEq, Prod.mk.injEq, reduceCtorEq] at h
    try obtain ⟨hr, hs⟩ := h
    try simp_all

/-- An answer that came from outside can come from outside again. -/
theorem step_again {i : Proc} {s s' : Kernel} {op : Call} {outside r : op.Answer}
    (h : s.step i op outside = some (r, s')) : s.step i op r = some (r, s') := by
  cases op with
  | file call => exact congrArg some (fileStep_again (step_file h))
  | socket call => exact congrArg some (socketStep_again (step_socket h))
  | process call => exact processStep_again h
  | terminal call =>
    obtain ⟨rfl, rfl⟩ := step_terminal h
    exact h
  | note note => exact h

theorem fileStep_creates {i : Proc} {s : Kernel} {call : FileCall} {outside : call.Answer}
    {error : IoError} (h : call.error? (s.fileStep i call outside).1 = some error)
    (hkind : error.kind = .alreadyExists) :
    Call.Creates (.file call) ∨ call.error? outside = some error := by
  cases call <;> simp only [fileStep] at h <;> repeat' split at h
  all_goals first | exact .inl trivial | exact .inr h | skip
  all_goals simp only [FileCall.error?, errorOf, Option.some.injEq, reduceCtorEq] at h
  all_goals
    subst h
    cases hkind

theorem socketStep_creates {i : Proc} {s : Kernel} {call : SocketCall} {outside : call.Answer}
    {error : IoError} (h : call.error? (s.socketStep i call outside).1 = some error)
    (hkind : error.kind = .alreadyExists) : call.error? outside = some error := by
  cases call <;> simp only [socketStep] at h <;> repeat' split at h
  all_goals first | exact h | skip
  all_goals simp only [SocketCall.error?, errorOf, Option.some.injEq, reduceCtorEq] at h
  all_goals
    subst h
    cases hkind

theorem processStep_creates {i : Proc} {s s' : Kernel} {call : ProcessCall}
    {outside r : call.Answer} {error : IoError}
    (hstep : s.processStep i call outside = some (r, s')) (h : call.error? r = some error)
    (hkind : error.kind = .alreadyExists) : call.error? outside = some error := by
  cases call <;> simp only [processStep] at hstep <;> repeat' split at hstep
  all_goals
    simp only [Option.some.injEq, Prod.mk.injEq, reduceCtorEq] at hstep
    try obtain ⟨rfl, -⟩ := hstep
    try first | exact h | skip
  all_goals simp only [ProcessCall.error?, errorOf, Option.some.injEq, reduceCtorEq] at h
  all_goals
    subst h
    cases hkind

/-- Nothing that happens outside is the existence of an entry. -/
theorem quietAnswer_plain (op : Call) : op.Plain (quietAnswer op) := by
  intro error h
  rcases op with call | call | call | call | _
  · cases call <;> simp only [Call.error?, FileCall.error?, quietAnswer, errorOf, Option.some.injEq,
      reduceCtorEq] at h
    all_goals exact h ▸ by decide
  · cases call <;> simp only [Call.error?, SocketCall.error?, quietAnswer, errorOf,
      Option.some.injEq, reduceCtorEq] at h
    all_goals exact h ▸ by decide
  · cases call <;> simp only [Call.error?, ProcessCall.error?, quietAnswer, errorOf,
      Option.some.injEq, reduceCtorEq] at h
    all_goals exact h ▸ by decide
  · cases h
  · cases h

/-- Only the creation of an entry is answered that something exists. -/
theorem step_creates {i : Proc} {s s' : Kernel} {op : Call} {told r : op.Answer} {error : IoError}
    (hplain : op.Plain told) (hstep : s.step i op told = some (r, s'))
    (h : op.error? r = some error) (hkind : error.kind = .alreadyExists) : op.Creates := by
  have houtside : op.Creates ∨ op.error? told = some error := by
    cases op with
    | file call =>
      have hr := congrArg Prod.fst (step_file hstep)
      exact fileStep_creates (by rw [hr]; exact h) hkind
    | socket call =>
      have hr := congrArg Prod.fst (step_socket hstep)
      exact .inr (socketStep_creates (by rw [hr]; exact h) hkind)
    | process call => exact .inr (processStep_creates hstep h hkind)
    | terminal call => cases h
    | note note => cases h
  obtain hcreates | htold := houtside
  · exact hcreates
  · exact absurd hkind (hplain error htold)

/-- The names cover the entries, so those that are entries are a listing. -/
theorem Stage.Covers.lists {i : Proc} {stage : Stage} (h : stage.Covers i) :
    stage.1.Lists (stage.2.dedup.filter fun name => (stage.1.dir name).isSome) := by
  refine ⟨(List.nodup_dedup stage.2).filter _, fun name => ?_⟩
  rw [List.mem_filter, List.mem_dedup]
  exact ⟨fun hname => hname.2, fun hname => ⟨h.entries name hname, hname⟩⟩

theorem Stage.answered_step {i : Proc} {stage : Stage} {op : Call} {told r : op.Answer}
    {s' : Kernel} (hgiven : stage.given op = none)
    (hstep : stage.1.step i op told = some (r, s')) : stage.answered i op told = r := by
  rw [answered, hgiven]
  dsimp only
  rw [hstep]

/-- The answers of the stage are ones the system may give. -/
theorem Stage.answered_admits {i : Proc} {stage : Stage} (h : stage.Covers i) {op : Call}
    {told : op.Answer} (hplain : op.Plain told) :
    stage.1.Admits i .none op (stage.answered i op told) := by
  obtain ⟨⟨r, s'⟩, hstep⟩ := Option.isSome_iff_exists.mp (step_isSome h op told)
  by_cases hnow : ∃ site, op = .process (.now site)
  · obtain ⟨site, rfl⟩ := hnow
    refine ⟨.inl ⟨stage.1.clock, UInt64.le_refl _, rfl⟩, ?_⟩
    rintro _ ⟨⟩
  by_cases hreadDir : op = .file .readDir
  · subst hreadDir
    refine ⟨.inl ⟨_, h.lists, rfl⟩, ?_⟩
    rintro _ ⟨⟩
  have hgiven : stage.given op = none := by
    unfold given
    split
    · exact absurd ⟨_, rfl⟩ hnow
    · exact absurd rfl hreadDir
    · rfl
  rw [answered_step hgiven hstep]
  refine ⟨.inl ?_, fun error herror hkind => step_creates hplain hstep herror hkind⟩
  unfold Answers
  split
  · exact absurd ⟨_, rfl⟩ hnow
  · exact absurd rfl hreadDir
  · exact ⟨s', step_again hstep⟩

end Kernel

/-- **A process alone can be played**: what comes of the play is the result of a run. -/
theorem runs_alone {i : Proc} {s₀ : Kernel} {names : List Name} {α : Type} {p : Prog α}
    {a : α} {stage : Kernel.Stage} (hcovers : Kernel.Stage.Covers (s₀, names) i)
    (hrun : p.run (Kernel.Stage.outside i) (s₀, names) = some (a, stage)) :
    ∃ log, Runs (alone i s₀ .none) p log (.ret a) ∧ after i s₀ log = stage.1 ∧ stage.Covers i := by
  obtain ⟨log, hlog, hstate, hcovers'⟩ := runs_of_run (A := alone i s₀ .none)
    (I := fun stage log => after i s₀ log = stage.1 ∧ stage.Covers i) (by
      rintro stage log op ⟨hstate, hcovers⟩
      refine ⟨?_, ?_, hcovers.next op _⟩
      · show (after i s₀ log).Admits i .none op _
        rw [hstate]
        exact Kernel.Stage.answered_admits hcovers (Kernel.quietAnswer_plain op)
      · show (after i s₀ log).next i op _ = _
        rw [hstate]
        rfl) ⟨rfl, hcovers⟩ .refl hrun
  exact ⟨log, hlog, hstate, hcovers'⟩

/-- A system on which process `i` runs alone, with the log of its calls. -/
def Kernel.Stage.recorded (i : Proc) (played : Kernel.Stage × RunnerLog) (op : Call) :
    op.Answer × (Kernel.Stage × RunnerLog) :=
  (played.1.answer i op, (played.1.outside i op).2, ⟨op, played.1.answer i op⟩ :: played.2)

/-- What comes of the play is the result of a run with the recorded log. -/
theorem runs_recorded {i : Proc} {s₀ : Kernel} {names : List Name} {α : Type} {p : Prog α}
    {a : α} {stage : Kernel.Stage} {log : RunnerLog} (hcovers : Kernel.Stage.Covers (s₀, names) i)
    (hrun : p.run (Kernel.Stage.recorded i) ((s₀, names), []) = some (a, stage, log)) :
    Runs (alone i s₀ .none) p log (.ret a) ∧ after i s₀ log = stage.1 ∧ stage.Covers i := by
  obtain ⟨log', hlog, rfl, hstate, hcovers'⟩ := runs_of_run (A := alone i s₀ .none)
    (I := fun played log => played.2 = log ∧ after i s₀ log = played.1.1 ∧ played.1.Covers i) (by
      rintro ⟨stage, log⟩ _ op ⟨rfl, hstate, hcovers⟩
      refine ⟨?_, rfl, ?_, hcovers.next op _⟩
      · show (after i s₀ log).Admits i .none op _
        rw [hstate]
        exact Kernel.Stage.answered_admits hcovers (Kernel.quietAnswer_plain op)
      · show (after i s₀ log).next i op _ = _
        rw [hstate]
        rfl) ⟨rfl, rfl, hcovers⟩ .refl hrun
  exact ⟨hlog, hstate, hcovers'⟩

/-! ## Playing a process alone in a scene -/

/-- An error that does not say that an entry exists. -/
def plainly {α : Type} (r : Except IoError α) : Bool :=
  (errorOf r).all fun error => decide (error.kind ≠ .alreadyExists)

theorem plainly_ne {α : Type} {r : Except IoError α} {error : IoError} (h : plainly r = true)
    (hr : errorOf r = some error) : error.kind ≠ .alreadyExists := by
  rw [plainly, hr] at h
  exact of_decide_eq_true h

theorem plainly_ok {α : Type} (a : α) : plainly (.ok a : Except IoError α) = true := rfl

theorem plainly_wouldBlock {α : Type} :
    plainly (.error (IoError.os .wouldBlock 11) : Except IoError α) = true := rfl

namespace Scene

/-- Nothing that happens in the scene is the existence of an entry. -/
structure Plain (scene : Scene) : Prop where
  accepts : ∀ r ∈ scene.accepts, plainly r = true
  peers : ∀ r ∈ scene.peers, plainly r = true
  reads : ∀ r ∈ scene.reads, plainly r = true
  writes : ∀ r ∈ scene.writes, plainly r = true
  ptyReads : ∀ r ∈ scene.ptyReads, plainly r = true
  ptys : ∀ r ∈ scene.ptys, plainly r = true

theorem nextAnswer_plain {α : Type} {default : Except IoError α} {rs : List (Except IoError α)}
    (hdefault : plainly default = true) (h : ∀ r ∈ rs, plainly r = true) :
    plainly (nextAnswer default rs).1 = true ∧ ∀ r ∈ (nextAnswer default rs).2, plainly r = true := by
  cases rs with
  | nil => exact ⟨hdefault, h⟩
  | cons r rs => exact ⟨h r List.mem_cons_self, fun r' hr' => h r' (List.mem_cons_of_mem _ hr')⟩

/-- What a plain scene answers, and what is left of it. -/
theorem Plain.answer {scene : Scene} (h : scene.Plain) (op : Call) :
    op.Plain (scene.answer op).1 ∧ (scene.answer op).2.Plain := by
  have hquiet : op.Plain (Kernel.quietAnswer op) := Kernel.quietAnswer_plain op
  unfold Scene.answer
  split
  · obtain ⟨hnext, hrest⟩ := nextAnswer_plain plainly_wouldBlock h.accepts
    exact ⟨fun error => plainly_ne hnext, { h with accepts := hrest }⟩
  · obtain ⟨hnext, hrest⟩ := nextAnswer_plain plainly_wouldBlock h.reads
    exact ⟨fun error => plainly_ne hnext, { h with reads := hrest }⟩
  · obtain ⟨hnext, hrest⟩ := nextAnswer_plain (plainly_ok _) h.writes
    exact ⟨fun error => plainly_ne hnext, { h with writes := hrest }⟩
  · obtain ⟨hnext, hrest⟩ := nextAnswer_plain plainly_wouldBlock h.ptyReads
    exact ⟨fun error => plainly_ne hnext, { h with ptyReads := hrest }⟩
  · exact ⟨nofun, { h with }⟩
  · exact ⟨nofun, { h with }⟩
  · obtain ⟨hnext, hrest⟩ := nextAnswer_plain (plainly_ok _) h.peers
    exact ⟨fun error => plainly_ne hnext, { h with peers := hrest }⟩
  · obtain ⟨hnext, hrest⟩ := nextAnswer_plain (plainly_ok _) h.ptys
    exact ⟨fun error => plainly_ne hnext, { h with ptys := hrest }⟩
  · exact ⟨nofun, h⟩
  · exact ⟨nofun, h⟩
  · exact ⟨nofun, h⟩
  · exact ⟨hquiet, h⟩

end Scene

/-- A play in a scene: what is left of the scene, the stage, and the log of the calls. -/
abbrev Kernel.Played := Scene × Kernel.Stage × RunnerLog

/-- A system on which process `i` runs alone in a scene. -/
def Kernel.Played.outside (i : Proc) (played : Kernel.Played) (op : Call) :
    op.Answer × Kernel.Played :=
  let told := played.1.answer op
  let r := played.2.1.answered i op told.1
  (r, told.2, (played.2.1.1.next i op r, op.names ++ played.2.1.2), ⟨op, r⟩ :: played.2.2)

/-- What comes of a play in a scene is the result of a run with the recorded log. -/
theorem runs_played {i : Proc} {s₀ : Kernel} {names : List Name} {scene scene' : Scene} {α : Type}
    {p : Prog α} {a : α} {stage : Kernel.Stage} {log : RunnerLog}
    (hcovers : Kernel.Stage.Covers (s₀, names) i) (hscene : scene.Plain)
    (hrun : p.run (Kernel.Played.outside i) (scene, (s₀, names), []) =
      some (a, scene', stage, log)) :
    Runs (alone i s₀ .none) p log (.ret a) ∧ after i s₀ log = stage.1 ∧ stage.Covers i ∧
      scene'.Plain := by
  obtain ⟨log', hlog, rfl, hstate, hcovers', hscene'⟩ := runs_of_run (A := alone i s₀ .none)
    (I := fun played log => played.2.2 = log ∧ after i s₀ log = played.2.1.1 ∧
      played.2.1.Covers i ∧ played.1.Plain) (by
      rintro ⟨scene, stage, log⟩ _ op ⟨rfl, hstate, hcovers, hscene⟩
      obtain ⟨hplain, hrest⟩ := hscene.answer op
      refine ⟨?_, rfl, ?_, hcovers.next op _, hrest⟩
      · show (after i s₀ log).Admits i .none op _
        rw [hstate]
        exact Kernel.Stage.answered_admits hcovers hplain
      · show (after i s₀ log).next i op _ = _
        rw [hstate]
        rfl) ⟨rfl, rfl, hcovers, hscene⟩ .refl hrun
  exact ⟨hlog, hstate, hcovers', hscene'⟩

end AfkCli
