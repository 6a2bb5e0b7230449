import AfkCli.Conflict
import AfkCli.Surface

/-!
# Collisions

When a start says `session exists` although nothing holds the ID: exactly when, before it answers, it
is to create an entry that is there already. The socket is bound, and the lock, the trace and the
temporary file of the record are created, only where there is nothing.

## Main definitions

* `Collided`: before its answer the runner found an entry that it was to create
* `MeansHeld`: a launcher is told that the session exists only if its ID is held
* `Heard`: the runner's answer reaches its launcher

## Main results

* `wp_takeOutcome`, `wp_prepareOutcome`, `wp_runnerOutcome`: how the parts of a start end
* `conflict_exact`: `session exists` means that the ID is held exactly when the start does not collide
  with something else
-/

namespace AfkCli

open Interaction Discipline Function Alone

/-! ## Collisions -/

/-- The call was to create an entry, and one was there. -/
def Finds : (op : Call) → op.Answer → Prop
  | .file (.createNew _ _), .error error => error.kind = .alreadyExists
  | .socket (.bind _), .error error => error.kind = .addrInUse
  | _, _ => False

/-- The runner has not answered its launcher. -/
def Unanswered (log : RunnerLog) : Prop :=
  ∀ e ∈ log, ∀ response, e.op ≠ .process (.sendResponse response)

/-- Before it answered, the runner found an entry that it was to create. -/
def Collided (log : RunnerLog) : Prop :=
  ∃ e before, e :: before <:+ log ∧ Finds e.op e.answer ∧ Unanswered before

namespace Collision

open Conflict

/-- Neither has the launcher been answered, nor has an entry been found. -/
structure Fresh (log : RunnerLog) : Prop where
  unanswered : Unanswered log
  free : ¬ Collided log

/-- An entry has been found, and the launcher does not know yet. -/
structure Jammed (log : RunnerLog) : Prop where
  unanswered : Unanswered log
  collided : Collided log

/-- The launcher was answered before any entry was found. -/
structure Settled (log : RunnerLog) : Prop where
  answered : ¬ Unanswered log
  free : ¬ Collided log

/-- The calls that neither answer the launcher nor create what may be there. -/
def Inert : Call → Prop
  | .file (.createNew ..) | .socket (.bind _) | .process (.sendResponse _) => False
  | _ => True

/-- The calls that are inert, and do not fail because something exists. -/
def Still (op : Call) : Prop := Inert op ∧ ¬ op.Creates

theorem Inert.unanswering {op : Call} (h : Inert op) (response : UInt8) :
    op ≠ .process (.sendResponse response) := by
  rintro rfl
  exact h

theorem Inert.finds {op : Call} (h : Inert op) (r : op.Answer) : ¬ Finds op r := by
  unfold Finds
  split
  · exact h.elim
  · exact h.elim
  · exact id

section logs

variable {log log' : RunnerLog} {op : Call} {r : op.Answer}

theorem collided_cons {e : Event Call Call.Answer} :
    Collided (e :: log) ↔ Collided log ∨ Finds e.op e.answer ∧ Unanswered log := by
  constructor
  · rintro ⟨e', before, hsuffix, hfinds, hunanswered⟩
    obtain heq | hsuffix := List.suffix_cons_iff.mp hsuffix
    · obtain ⟨rfl, rfl⟩ := List.cons.inj heq
      exact .inr ⟨hfinds, hunanswered⟩
    · exact .inl ⟨e', before, hsuffix, hfinds, hunanswered⟩
  · rintro (⟨e', before, hsuffix, hcollided⟩ | hcollided)
    · exact ⟨e', before, hsuffix.trans (List.suffix_cons _ _), hcollided⟩
    · exact ⟨e, log, List.suffix_refl _, hcollided⟩

theorem unanswered_cons (hop : ∀ response, op ≠ .process (.sendResponse response)) :
    Unanswered (⟨op, r⟩ :: log) ↔ Unanswered log := by
  simp only [Unanswered, List.forall_mem_cons]
  exact and_iff_right hop

theorem Fresh.cons (h : Fresh log) (hop : ∀ response, op ≠ .process (.sendResponse response))
    (hfinds : ¬ Finds op r) : Fresh (⟨op, r⟩ :: log) where
  unanswered := (unanswered_cons hop).mpr h.unanswered
  free hcollided := (collided_cons.mp hcollided).elim h.free fun hfound => hfinds hfound.1

theorem Fresh.jam (h : Fresh log) (hop : ∀ response, op ≠ .process (.sendResponse response))
    (hfinds : Finds op r) : Jammed (⟨op, r⟩ :: log) where
  unanswered := (unanswered_cons hop).mpr h.unanswered
  collided := collided_cons.mpr (.inr ⟨hfinds, h.unanswered⟩)

/-- An answer settles what the launcher knows. -/
theorem Fresh.settle (h : Fresh log) (response : UInt8) (r : Except IoError Unit) :
    Settled (⟨.process (.sendResponse response), r⟩ :: log) where
  answered hunanswered := hunanswered _ List.mem_cons_self response rfl
  free hcollided := (collided_cons.mp hcollided).elim h.free fun hfound => hfound.1

theorem Jammed.cons (h : Jammed log) (hop : ∀ response, op ≠ .process (.sendResponse response)) :
    Jammed (⟨op, r⟩ :: log) where
  unanswered := (unanswered_cons hop).mpr h.unanswered
  collided := collided_cons.mpr (.inl h.collided)

theorem Settled.cons {e : Event Call Call.Answer} (h : Settled log) : Settled (e :: log) where
  answered hunanswered := h.answered fun e' he' => hunanswered e' (List.mem_cons_of_mem _ he')
  free hcollided := (collided_cons.mp hcollided).elim h.free fun hfound => h.answered hfound.2

theorem Settled.of_suffix (h : Settled log) (hsuffix : log <:+ log') : Settled log' := by
  obtain ⟨new, rfl⟩ := hsuffix
  induction new with
  | nil => exact h
  | cons e new ih => exact ih.cons

theorem Fresh.grew (h : Fresh log) (hgrew : GrewBy Inert log log') : Fresh log' := by
  obtain ⟨new, rfl, hnew⟩ := hgrew
  induction new with
  | nil => exact h
  | cons e new ih =>
    obtain ⟨hinert, hrest⟩ := List.forall_mem_cons.mp hnew
    exact (ih hrest).cons hinert.unanswering (hinert.finds _)

theorem fresh_nil : Fresh [] where
  unanswered := by
    intro e he
    cases he
  free := by
    rintro ⟨e, before, hsuffix, -⟩
    cases List.suffix_nil.mp hsuffix

end logs

/-! ## How a part of the start ends -/

/-- How a part of the start ends: it is done, it found an entry, it failed otherwise, or it failed
once the launcher was answered. -/
inductive Outcome {α : Type} (n : Nat) (s₀ : Kernel) (excuse done : RunnerLog → Prop)
    (log : RunnerLog) : Except IoError α → Prop
  | done (a : α) (h : done log) : Outcome n s₀ excuse done log (.ok a)
  | collided {error : IoError} (hkind : error.kind = .alreadyExists) (h : Jammed log) :
    Outcome n s₀ excuse done log (.error error)
  | failed {error : IoError} (hkind : error.kind = .alreadyExists → excuse log) (h : Fresh log) :
    Outcome n s₀ excuse done log (.error error)
  | answered {error : IoError} (hkind : error.kind = .alreadyExists → ToldReady n s₀ log)
    (h : Settled log) : Outcome n s₀ excuse done log (.error error)

/-- No excuse. -/
abbrev Never : RunnerLog → Prop := fun _ => False

section outcomes

variable {α β : Type} {n : Nat} {s₀ : Kernel} {F : Faults} {excuse excuse' done done' Good :
  RunnerLog → Prop} {log log' : RunnerLog} {error : IoError}

theorem Outcome.recast (h : Outcome n s₀ excuse done log (.error error : Except IoError α))
    (hexcuse : excuse log → excuse' log) :
    Outcome n s₀ excuse' done' log (.error error : Except IoError β) := by
  cases h with
  | collided hkind h => exact .collided hkind h
  | failed hkind h => exact .failed (fun h => hexcuse (hkind h)) h
  | answered hkind h => exact .answered hkind h

/-- Cleaning up after an error changes nothing. -/
theorem Outcome.cons {op : Call} {r : op.Answer} (hinert : Inert op)
    (h : Outcome n s₀ Never done log (.error error : Except IoError α)) :
    Outcome n s₀ Never done (⟨op, r⟩ :: log) (.error error : Except IoError α) := by
  cases h with
  | collided hkind h => exact .collided hkind (h.cons hinert.unanswering)
  | failed hkind h => exact .failed hkind (h.cons hinert.unanswering (hinert.finds r))
  | answered hkind h => exact .answered (fun h => response_kept (hkind h) op r) h.cons

theorem Outcome.grew (hgrew : GrewBy Inert log log')
    (h : Outcome n s₀ Never done log (.error error : Except IoError α)) :
    Outcome n s₀ Never done log' (.error error : Except IoError α) := by
  obtain ⟨new, rfl, hnew⟩ := hgrew
  induction new with
  | nil => exact h
  | cons e new ih =>
    obtain ⟨hinert, hrest⟩ := List.forall_mem_cons.mp hnew
    exact (ih hrest).cons hinert

theorem wp_then {p : Io α} {f : α → Io β}
    (hp : (solo (.runner n) s₀ F Good).wp () p.run
      (fun r log' => Outcome n s₀ excuse Fresh log' r) log)
    (hf : ∀ a log', Fresh log' → (solo (.runner n) s₀ F Good).wp () (f a).run
      (fun r log'' => Outcome n s₀ excuse done log'' r) log') :
    (solo (.runner n) s₀ F Good).wp () (p >>= f).run
      (fun r log' => Outcome n s₀ excuse done log' r) log := by
  refine wp_seq _ hp (fun a log' h => ?_) fun error log' h => h.recast id
  cases h with
  | done _ hfresh => exact hf a log' hfresh

/-- A program that makes only still calls finds nothing. -/
theorem wp_still {p : Prog α} {q : α → Prop} (hgood : Unobserved Good)
    (hp : p.Within PlainAnswer Still q) (hlog : Fresh log) :
    (solo (.runner n) s₀ F Good).wp () p (fun a log' => q a ∧ Fresh log') log := by
  induction p generalizing log with
  | ret a => exact ⟨hp, hlog⟩
  | spin => exact trivial
  | call op k ih =>
    obtain ⟨⟨hinert, hcreates⟩, hk⟩ := hp
    show (solo (.runner n) s₀ F Good).wp () ((Program.perform op).bind k) _ _
    refine wp_bind.mpr (wp_alone hgood hinert.unanswering fun r hr => ?_)
    have hplain : PlainAnswer op r := fun error herror hkind =>
      hcreates (hr.creates error herror hkind)
    exact ih r (hk r hplain) (hlog.cons hinert.unanswering (hinert.finds r))

theorem wp_stillIo {p : Io α} {Q : α → Prop} (hgood : Unobserved Good)
    (hp : Plainly Still Q p) (hlog : Fresh log) :
    (solo (.runner n) s₀ F Good).wp () p.run (fun r log' => Outcome n s₀ Never Fresh log' r) log := by
  refine wp_mono ?_ (wp_still hgood hp hlog)
  rintro (error | a) log' ⟨⟨-, hplain⟩, hfresh⟩
  · exact .failed (fun hkind => absurd hkind (hplain error rfl)) hfresh
  · exact .done a hfresh

end outcomes

section plainly

variable {α β : Type} {ops : Call → Prop} {P : α → Prop} {R : β → Prop}

theorem plainly_attempt {p : Io α} {f : Except IoError α → Io β} (hp : Plainly ops P p)
    (hok : ∀ a, P a → Plainly ops R (f (.ok a)))
    (herror : ∀ error, error.kind ≠ .alreadyExists → Plainly ops R (f (.error error))) :
    Plainly ops R (attempt p >>= f) := by
  rw [Plainly, run_attempt_bind]
  refine Program.Within.bind hp fun r hr => ?_
  cases r with
  | ok a => exact hok a (hr.1 a rfl)
  | error error => exact herror error (hr.2 error rfl)

theorem plainly_ignore {p : Io α} {f : Io β} (hp : p.run.Within PlainAnswer ops fun _ => True)
    (hf : Plainly ops R f) : Plainly ops R (ignore p >>= fun _ => f) := by
  rw [Plainly, run_ignore_bind]
  exact Program.Within.bind hp fun _ _ => hf

end plainly

/-! ## Taking the session -/

section taking

variable {R : Registry} {self : Self} {session : SessionId} {n : Nat} {s₀ : Kernel} {F : Faults}
  {Good : RunnerLog → Prop} {log : RunnerLog}

/-- A file is created, or it is found. -/
theorem wp_createOutcome (hgood : Unobserved Good) {name : Name} {mode : Nat} (hlog : Fresh log) :
    (solo (.runner n) s₀ F Good).wp () (ask (file (.createNew name mode))).run
      (fun r log' => Outcome n s₀ Never Fresh log' r) log := by
  refine wp_alone hgood (by rintro _ ⟨⟩) fun r hr => ?_
  obtain error | fd := r
  · by_cases hkind : error.kind = .alreadyExists
    · exact .collided hkind (hlog.jam (by rintro _ ⟨⟩) hkind)
    · exact .failed hkind (hlog.cons (by rintro _ ⟨⟩) hkind)
  · exact .done fd (hlog.cons (by rintro _ ⟨⟩) id)

/-- The socket is bound, or its entry is found. -/
theorem wp_bindOutcome (hgood : Unobserved Good) (hF : F.Plain) {name : Name} (hlog : Fresh log) :
    (solo (.runner n) s₀ F Good).wp () (Registry.bindListener name).run
      (fun r log' => (∀ fd, r = .ok fd → Fresh log') ∧
        ∀ error, r = .error error → error.kind ≠ .alreadyExists ∧
          (error.kind = .addrInUse → Jammed log') ∧ (error.kind ≠ .addrInUse → Fresh log')) log := by
  refine wp_io_bind.mpr (wp_alone hgood (by rintro _ ⟨⟩) fun r hr => ?_)
  have hcreates := hr.creates
  obtain error | fd := r
  · -- Nothing was bound, and `AddrInUse` says that the name was taken.
    refine wp_ret.mpr ⟨by rintro _ ⟨⟩, ?_⟩
    rintro _ ⟨⟩
    exact ⟨fun h => hcreates error rfl h, fun h => hlog.jam (by rintro _ ⟨⟩) h,
      fun h => hlog.cons (by rintro _ ⟨⟩) h⟩
  have hbound : Fresh (⟨.socket (.bind name), .ok fd⟩ :: log) := hlog.cons (by rintro _ ⟨⟩) id
  refine wp_attempt_bind.mpr (wp_alone hgood (by rintro _ ⟨⟩) fun r' hr' => ?_)
  have hlistened : Fresh (⟨.socket (.listen fd), r'⟩ :: ⟨.socket (.bind name), .ok fd⟩ :: log) :=
    hbound.cons (by rintro _ ⟨⟩) ((show Inert (.socket (.listen fd)) from trivial).finds r')
  have hcreates' := hr'.creates
  obtain error | _ := r'
  · -- A listener that cannot listen is dropped.
    refine wp_lift_bind.mpr (wp_alone hgood (by rintro _ ⟨⟩) fun r'' _ => wp_ret.mpr ?_)
    refine ⟨by rintro _ ⟨⟩, ?_⟩
    rintro _ ⟨⟩
    have haddress : error.kind ≠ .addrInUse := by
      -- `listen` looks at no name, so it has no reason to say `AddrInUse`.
      obtain ⟨_, ⟨⟩, hfault, -⟩ | hstep := hr'.socket
      · exact hF.address _ _ hfault
      · cases congrArg Prod.fst hstep
    exact ⟨fun h => hcreates' error rfl h, fun h => absurd h haddress,
      fun _ => hlistened.cons (by rintro _ ⟨⟩) id⟩
  · refine wp_ret.mpr ⟨fun _ _ => hlistened, by rintro _ ⟨⟩⟩

theorem wp_lockOutcome (hgood : Unobserved Good) {listener : Fd} (hlog : Fresh log) :
    (solo (.runner n) s₀ F Good).wp ()
      (Registry.lockSession (sessionPaths session) listener).run
      (fun r log' => Outcome n s₀ Never Fresh log' r) log := by
  refine wp_attempt_bind.mpr (wp_mono (Q := fun r log' => Outcome n s₀ Never Fresh log' r) ?_ ?_)
  · rintro (error | lock) log' h
    · refine wp_lift_bind.mpr (wp_alone hgood (by rintro _ ⟨⟩) fun r _ => wp_ret.mpr ?_)
      exact (h.recast id).cons trivial
    · cases h with
      | done _ hfresh => exact wp_ret.mpr (.done _ hfresh)
  · refine wp_then (wp_stillIo hgood (.ask ⟨⟨trivial, id⟩, fun r hr error he => hr error ?_⟩) hlog)
      fun _ log₁ h₁ => ?_
    · rw [he]
      rfl
    refine wp_then (wp_stillIo hgood (.ask ⟨⟨trivial, id⟩, fun r hr error he => hr error ?_⟩) h₁)
      fun _ log₂ h₂ => ?_
    · rw [he]
      rfl
    refine wp_attempt_bind.mpr (wp_mono ?_ (wp_createOutcome hgood h₂))
    rintro (error | lock) log' h
    · refine wp_ignore_bind.mpr (wp_alone hgood (by rintro _ ⟨⟩) fun r _ => wp_ret.mpr ?_)
      exact (h.recast id).cons trivial
    · cases h with
      | done _ hfresh => exact wp_ret.mpr (.done _ hfresh)

theorem inert_opens (op : Call) (h : Surface.Opens op) : Inert op := by
  unfold Surface.Opens at h
  unfold Inert
  split
  all_goals first | exact h | trivial

theorem inert_frees (op : Call) (h : Surface.Frees session op) : Inert op := by
  unfold Surface.Frees at h
  unfold Inert
  split
  all_goals first | exact h | trivial

theorem wp_sessionOutcome (hgood : Unobserved Good) (hF : F.Plain) (hlog : Fresh log) :
    (solo (.runner n) s₀ F Good).wp () (R.bindSession session).run
      (fun r log' => Outcome n s₀ (Held R session (after (.runner n) s₀ log)) Fresh log' r) log := by
  unfold Registry.bindSession
  by_cases hfits : R.Fits session
  swap
  · rw [Registry.paths_error hfits]
    exact wp_ret.mpr (.failed (fun hkind => absurd hkind (by decide)) hlog)
  rw [Registry.paths_eq hfits, pure_bind]
  refine wp_then (wp_mono ?_ (wp_grows (Surface.only_clearSession inert_frees)
    (wp_clearSession hgood hF.honest))) fun _ log₁ hlog₁ => ?_
  · rintro (error | _) log' ⟨hclears, hgrew⟩
    · exact .failed (hclears.held error rfl) (hlog.grew hgrew)
    · exact .done () (hlog.grew hgrew)
  refine wp_attempt_bind.mpr (wp_mono ?_ (wp_bindOutcome hgood hF hlog₁))
  rintro (error | listener) log₂ ⟨hfresh, herror⟩
  · obtain ⟨hplain, hjammed, hfresh⟩ := herror error rfl
    dsimp only
    split_ifs with haddress
    · exact wp_ret.mpr (.collided rfl (hjammed haddress))
    · exact wp_ret.mpr (.failed (fun hkind => absurd hkind hplain) (hfresh haddress))
  · refine wp_mono (fun r log' h => ?_) (wp_lockOutcome hgood (hfresh listener rfl))
    cases r with
    | ok files =>
      cases h with
      | done _ h => exact .done files h
    | error error => exact h.recast False.elim

/-- **Taking a session**: it is taken, an entry was found, or its ID is held. -/
theorem wp_takeOutcome (hgood : Unobserved Good) (hF : F.Plain) {serde : Serde}
    (hR : R.Of serde self) (hlog : Fresh log) :
    (solo (.runner n) s₀ F Good).wp () (takeSession serde self session).run
      (fun r log' => Outcome n s₀ (Held R session (after (.runner n) s₀ log)) Fresh log' r) log := by
  refine wp_io_bind.mpr (wp_alone hgood (by rintro _ ⟨⟩) fun r hr => ?_)
  have hcreates := hr.creates
  have hsetsid : Fresh (⟨.process .setsid, r⟩ :: log) :=
    hlog.cons (by rintro _ ⟨⟩) ((show Inert (.process .setsid) from trivial).finds r)
  obtain error | _ := r
  · exact wp_ret.mpr (.failed (fun hkind => (hcreates error rfl hkind).elim) hsetsid)
  refine wp_lift_bind.mpr (wp_alone hgood (by rintro _ ⟨⟩) fun r hr => ?_)
  have hmask : Fresh (⟨.process (.umask 0o077), r⟩ :: ⟨.process .setsid, .ok ()⟩ :: log) :=
    hsetsid.cons (by rintro _ ⟨⟩) ((show Inert (.process (.umask 0o077)) from trivial).finds r)
  -- Nothing but the mask has changed.
  have hmasked : SameEntries (after (.runner n) s₀ log) (after (.runner n) s₀
      (⟨.process (.umask 0o077), r⟩ :: ⟨.process .setsid, .ok ()⟩ :: log)) :=
    (SameEntries.next _ _).trans (SameEntries.next _ _)
  generalize (⟨.process (.umask 0o077), r⟩ :: ⟨.process .setsid, .ok ()⟩ :: log : RunnerLog) = log₁
    at hmasked hmask ⊢
  refine wp_seq _ (wp_grows (Surface.yields_openRegistry inert_opens).only
    (wp_openRegistry hgood hF.honest)) (fun R' log₂ h₂ => ?_) fun error log₂ h₂ => ?_
  swap
  · exact .failed (fun hkind => absurd hkind ((h₂.1.2 R hR).plain error rfl)) (hmask.grew h₂.2)
  obtain ⟨now, names, -, -, -, hswept⟩ := (h₂.1.2 R hR).swept R' rfl
  have hR' := h₂.1.1 R' rfl
  refine wp_seq _ (wp_sessionOutcome hgood hF (hmask.grew h₂.2)) (fun files log₃ h₃ => ?_)
    fun error log₃ h₃ => h₃.recast fun hheld => ?_
  · cases h₃ with
    | done _ hfresh => exact wp_ret.mpr (.done _ hfresh)
  · -- What the registry finds for this user does not depend on its root.
    refine hmasked.held (Held.congr (Held.of_pruned hswept.pruned hheld) ?_)
    rintro s metadata ⟨n, hn, hnode, hle, hbytes, hid⟩
    rw [hR'.1, ← hR.1] at hnode
    rw [hR'.2, ← hR.2] at hbytes
    exact ⟨n, hn, hnode, hle, hbytes, hid⟩

end taking

/-! ## Until the answer -/

section answering

variable {R : Registry} {self : Self} {session : SessionId} {n : Nat} {s₀ : Kernel} {F : Faults}
  {Good : RunnerLog → Prop} {log : RunnerLog} {config : StartupConfig}

/-- The excuse of a start: the ID is held, or an entry was found. -/
def Reason (R : Registry) (session : SessionId) (s₀ : Kernel) (log : RunnerLog) : Prop :=
  Held R session s₀ log ∨ Collided log

theorem reason_lasting : Lasting (Reason R session s₀) := by
  rintro log log' (hheld | ⟨e, before, hsuffix, hfound⟩) hlog
  · exact .inl (hheld.mono hlog)
  · exact .inr ⟨e, before, hsuffix.trans hlog, hfound⟩

theorem takes_still (trace : Option Trace) : TakesTrace Still trace :=
  ⟨⟨trivial, id⟩, fun _ _ _ => ⟨trivial, id⟩⟩

theorem still_of_mild {m : Nat} {op : Call} (h : Mild m op) : Still op := by
  refine ⟨?_, h.2⟩
  have hspares := h.1
  unfold Presence.Spares at hspares
  unfold Inert
  split
  all_goals first | exact hspares | trivial

theorem plainly_still {α : Type} {m : Nat} {Q : α → Prop} {p : Io α} (h : Plainly (Mild m) Q p) :
    Plainly Still Q p :=
  Program.Within.mono h (fun _ _ => id) (fun _ => still_of_mild) fun _ => id

/-- Some inode is not the trace's. -/
theorem exists_apart (trace : Option Trace) : ∃ m, Presence.Apart m trace := by
  cases trace with
  | none => exact ⟨0, by rintro _ ⟨⟩⟩
  | some t =>
    refine ⟨t.file + 1, ?_⟩
    rintro _ ⟨⟩
    exact Nat.ne_of_lt (Nat.lt_succ_self _)

/-- The trace is created, or its entry is found. -/
theorem wp_traceOutcome (hgood : Unobserved Good) {name : Name} {enabled : Bool}
    {component : String} (hlog : Fresh log) :
    (solo (.runner n) s₀ F Good).wp ()
      (ExceptT.run (if enabled then some <$> Trace.create self name component else pure none : Io _))
      (fun r log' => Outcome n s₀ Never Fresh log' r) log := by
  split_ifs
  · rw [map_eq_pure_bind, Trace.create, bind_assoc]
    refine wp_then (wp_createOutcome hgood hlog) fun fd log₁ h₁ => ?_
    refine wp_lift_bind.mpr (wp_mono ?_ (wp_still hgood
      ((within_traceWrite (takes_still _) _ _).mono (fun _ _ _ => trivial) (fun _ => id) fun _ => id)
      h₁))
    rintro trace log₂ ⟨-, h₂⟩
    exact wp_ret.mpr (.done _ h₂)
  · exact wp_ret.mpr (.done none hlog)

/-- A file is replaced, or its temporary file is found. -/
theorem wp_writeOutcome (hgood : Unobserved Good) {name : Name} {bytes : Bytes} (hlog : Fresh log) :
    (solo (.runner n) s₀ F Good).wp () (atomicWrite self name bytes).run
      (fun r log' => Outcome n s₀ Never Fresh log' r) log := by
  unfold atomicWrite
  refine wp_then (wp_createOutcome hgood hlog) fun fd log₁ h₁ => wp_stillIo (Q := fun _ => True)
    hgood ?_ h₁
  have hwrite : Plainly Still (fun _ : Unit => True) (do
      ask (file (.writeAll .atomicWrite fd bytes))
      ask (file (.syncAll fd))
      ask (file (.rename (temporaryName name self.pid) name))) := by
    refine .bind (.ask ⟨⟨trivial, id⟩, fun r hr error he => hr error ?_⟩) fun _ _ => ?_
    · rw [he]
      rfl
    refine .bind (.ask ⟨⟨trivial, id⟩, fun r hr error he => hr error ?_⟩) fun _ _ => ?_
    · rw [he]
      rfl
    refine .ask ⟨⟨trivial, id⟩, fun r hr error he => hr error ?_⟩
    rw [he]
    rfl
  refine plainly_attempt hwrite (fun _ _ => .pure trivial) fun error hplain => ?_
  exact plainly_ignore ⟨⟨trivial, id⟩, fun _ _ => trivial⟩ (.throw hplain)

theorem wp_prepareOutcome {excuse : RunnerLog → Prop} (hlasting : Lasting excuse)
    {registry : Registry} {files : SessionFiles} (huntold : Untold n s₀ log) (hlog : Fresh log) :
    (solo (.runner n) s₀ F (Truthful excuse n s₀)).wp ()
      (prepareRunner self registry session files config).run
      (fun r log' => Outcome n s₀ Never (fun log' => ToldReady n s₀ log' ∧ Settled log') log' r)
      log := by
  have hgood : Unobserved (Truthful excuse n s₀) := unobserved_truthful hlasting
  unfold prepareRunner
  refine wp_before huntold (wp_traceOutcome unobserved_untold hlog) (fun trace log₁ h₁ huntold₁ => ?_)
    fun error log₁ h₁ _ => h₁.recast id
  cases h₁ with | done _ h₁ => ?_
  refine wp_before huntold₁ (wp_stillIo unobserved_untold (Plainly.lift
    (within_traceEvent (takes_still _) _)) h₁) (fun trace₂ log₂ h₂ huntold₂ => ?_)
      fun error log₂ h₂ _ => h₂.recast id
  cases h₂ with | done _ h₂ => ?_
  refine wp_before huntold₂ (wp_stillIo unobserved_untold
    (plainly_still (m := 0) plainly_createPty) h₂) (fun _ log₃ h₃ huntold₃ => ?_)
      fun error log₃ h₃ _ => h₃.recast id
  cases h₃ with | done _ h₃ => ?_
  obtain ⟨m, hapart⟩ := exists_apart trace₂
  refine wp_attempt_bind.mpr (wp_mono ?_ (wp_strengthen (fun _ h => Untold.truthful h) huntold₃
    (wp_stillIo unobserved_untold (plainly_still (plainly_spawnChild hapart)) h₃)))
  rintro (error | ⟨trace₄, startedAt, childPid⟩) log₄ ⟨h₄, huntold₄⟩
  · refine wp_lift_bind.mpr (wp_alone hgood (by rintro _ ⟨⟩) fun _ _ => wp_ret.mpr ?_)
    exact (h₄.recast id).cons trivial
  cases h₄ with | done _ h₄ => ?_
  -- An error from here on is reported once the terminal and the child are gone.
  have hundo : ∀ {error : IoError} {log' : RunnerLog},
      Outcome n s₀ Never Fresh log' (.error error : Except IoError Unit) →
      (solo (.runner n) s₀ F (Truthful excuse n s₀)).wp () (ExceptT.run (do
          process .closePty
          ignore (ask (process (.killChild .kill)))
          ignore (ask (process .waitChild))
          throw error : Io (RunnerContext × Option Trace)))
        (fun r log'' => Outcome n s₀ Never (fun log' => ToldReady n s₀ log' ∧ Settled log') log'' r)
        log' := by
    intro error log' h
    refine wp_lift_bind.mpr (wp_alone hgood (by rintro _ ⟨⟩) fun r₁ _ => ?_)
    refine wp_ignore_bind.mpr (wp_alone hgood (by rintro _ ⟨⟩) fun r₂ _ => ?_)
    refine wp_ignore_bind.mpr (wp_alone hgood (by rintro _ ⟨⟩) fun r₃ _ => wp_ret.mpr ?_)
    have hclosed : Outcome n s₀ Never Fresh (⟨.process .closePty, r₁⟩ :: log')
        (.error error : Except IoError Unit) := h.cons trivial
    have hkilled : Outcome n s₀ Never Fresh (⟨.process (.killChild .kill), r₂⟩ ::
        ⟨.process .closePty, r₁⟩ :: log') (.error error : Except IoError Unit) :=
      hclosed.cons trivial
    have hreaped : Outcome n s₀ Never Fresh (⟨.process .waitChild, r₃⟩ ::
        ⟨.process (.killChild .kill), r₂⟩ :: ⟨.process .closePty, r₁⟩ :: log')
          (.error error : Except IoError Unit) := hkilled.cons trivial
    exact hreaped.recast id
  refine wp_attempt_bind.mpr (wp_before huntold₄ (P := fun r log' => Outcome n s₀ Never Fresh log' r)
    ?_ (fun _ log₅ h₅ huntold₅ => ?_) fun error log₅ h₅ _ => hundo h₅)
  · unfold RunnerContext.writeLive Registry.writeMetadata
    dsimp only
    split_ifs
    · exact wp_ret.mpr (.failed (fun hkind => absurd hkind (by decide)) h₄)
    · exact wp_writeOutcome unobserved_untold h₄
  cases h₅ with | done _ h₅ => ?_
  -- The runner is ready.
  refine wp_recorded fun r hr => ⟨?_, ?_⟩
  · exact Truthful.send hlasting huntold₅.truthful (fun h => absurd h (by decide)) r
  have hsettled := h₅.settle startupReady r
  obtain error | _ := r
  · refine hundo (.answered (fun hkind => ?_) hsettled)
    exact (hr.creates error rfl hkind).elim
  · exact wp_ret.mpr (.done _ ⟨Kernel.response_sent hr huntold₅, hsettled⟩)

/-- The start ends before the answer or after it. -/
theorem wp_startOutcome {serde : Serde} (hF : F.Plain) (hR : R.Of serde self)
    (huntold : Untold n s₀ log) (hlog : Fresh log) (hsame : SameEntries s₀ (after (.runner n) s₀ log)) :
    (solo (.runner n) s₀ F (Truthful (Reason R session s₀) n s₀)).wp ()
      (startRunner serde self session config).run
      (fun r log' => Outcome n s₀ (Held R session s₀) Settled log' r) log := by
  have hgood : Unobserved (Truthful (Reason R session s₀) n s₀) := unobserved_truthful reason_lasting
  rw [startRunner_eq]
  refine wp_before huntold (wp_takeOutcome unobserved_untold hF hR hlog)
    (fun taken log₁ h₁ huntold₁ => ?_) fun error log₁ h₁ _ => h₁.recast hsame.held
  cases h₁ with | done _ h₁ => ?_
  refine wp_attempt_bind.mpr (wp_mono ?_ (wp_prepareOutcome reason_lasting huntold₁ h₁))
  rintro (error | ⟨ctx, trace⟩) log₂ h₂
  · -- The files are dropped, and the error is passed on.
    have hdrop : Only Inert taken.2.drop :=
      .bind (.ignore (.ask (.perform trivial))) fun _ =>
        .bind (.ignore (.ask (.perform trivial))) fun _ => .lift (.perform trivial)
    refine wp_seq _ (wp_grows hdrop (wp_dropped hgood)) (fun _ log₃ h₃ => wp_ret.mpr ?_)
      (by rintro _ _ ⟨⟨⟩, -⟩)
    exact (h₂.grew h₃.2).recast False.elim
  · cases h₂ with | done _ h₂ => ?_
    refine wp_mono ?_ (wp_extends (wp_ready h₂.1 (ctx.serve trace).run))
    rintro (error | _) log' ⟨hready, hextends⟩
    · exact .answered (fun _ => hready) (h₂.2.of_suffix hextends)
    · exact .done () (h₂.2.of_suffix hextends)

end answering

end Collision

/-- The runner's answer reaches its launcher: nobody was killed, and sending it does not fail. -/
structure Heard (n : Nat) (s₀ : Kernel) (F : Faults) : Prop where
  alive : ∀ i, s₀.killed i = false
  sends : ∀ response error, ¬ F (.process (.sendResponse response)) error

namespace Collision

open Conflict

section answers

variable {R : Registry} {self : Self} {session : SessionId} {n : Nat} {s₀ : Kernel} {F : Faults}
  {log : RunnerLog}

theorem untold_of_unanswered (hnone : s₀.response n = none) (h : Unanswered log) :
    Untold n s₀ log := by
  induction log with
  | nil => exact hnone
  | cons e log ih =>
    obtain ⟨hop, hrest⟩ := List.forall_mem_cons.mp h
    exact unobserved_untold e.op e.answer log hop (ih hrest)

/-- Nobody is killed while the runner runs. -/
theorem killed_after (i : Proc) : (after (.runner n) s₀ log).killed i = s₀.killed i := by
  induction log with
  | nil => rfl
  | cons e log ih =>
    rw [after_cons, ← ih]
    unfold Kernel.next
    split
    · rfl
    · split
      · rfl
      · split
        · rename_i hstep
          exact congrFun (Kernel.exec_same (A := Outside.any) (F := .none)
            (.inl ⟨_, trivial, hstep⟩)).killed i
        · rfl

/-- An answer that reaches the launcher is sent without an error. -/
theorem sent_of_heard {response : UInt8} {r : Except IoError Unit} (hheard : Heard n s₀ F)
    (h : (after (.runner n) s₀ log).Admits (.runner n) F (.process (.sendResponse response)) r) :
    r = .ok () := by
  obtain ⟨s', hs'⟩ | ⟨error, -, hfault⟩ := h.answered
  · have hstep : (after (.runner n) s₀ log).processStep (.runner n) (.sendResponse response) r =
        some (r, s') := hs'
    simp only [Kernel.processStep, killed_after, hheard.alive, Bool.false_eq_true, if_false]
      at hstep
    exact (congrArg Prod.fst (Option.some.inj hstep)).symm
  · exact absurd hfault (hheard.sends response error)

/-- **The runner answers** that the session exists only for a reason, and after a collision if it is
heard. -/
theorem wp_runnerOutcome {serde : Serde} (hF : F.Plain) (hR : R.Of serde self)
    (hnone : s₀.response n = none) :
    (solo (.runner n) s₀ F (Truthful (Reason R session s₀) n s₀)).wp ()
      (hiddenRunner serde self session).run
      (fun _ log' => Heard n s₀ F → Collided log' →
        (after (.runner n) s₀ log').response n = some startupExists) [] := by
  have hread : Only Inert (do
      let bytes ← ask (process .recvStartup)
      ask (.ret (readStartupConfig bytes)) : Io StartupConfig) :=
    .bind (.ask (.perform trivial)) fun _ => .ask (.ret _)
  refine wp_attempt_bind.mpr (wp_mono ?_ (wp_strengthen (fun _ h => Untold.truthful h) hnone
    (wp_grows hread wp_readStartup)))
  rintro (error | config) log₁ ⟨⟨⟨hsame, -⟩, hgrew⟩, huntold₁⟩
  · -- A configuration that cannot be read is answered before anything is created.
    refine wp_ignore_bind.mpr (wp_recorded fun r _ => ⟨?_, wp_ret.mpr fun _ hcollided => ?_⟩)
    · exact huntold₁.truthful.send reason_lasting (fun h => absurd h (by decide)) r
    · exact absurd hcollided ((fresh_nil.grew hgrew).settle _ r).free
  refine wp_attempt_bind.mpr (wp_mono ?_ (wp_keeps huntold₁.truthful
    (wp_startOutcome hF hR huntold₁ (fresh_nil.grew hgrew) hsame)))
  rintro (error | _) log₂ ⟨h₂, htruthful⟩
  swap
  · cases h₂ with
    | done _ hsettled => exact wp_ret.mpr fun _ hcollided => absurd hcollided hsettled.free
  dsimp only
  -- The answer depends on the kind of the error alone.
  generalize hresponse : (if error.kind = .alreadyExists then startupExists else startupFailed) =
    response
  have hkind : response = startupExists → error.kind = .alreadyExists := by
    rintro rfl
    by_contra hkind
    rw [if_neg hkind] at hresponse
    exact absurd hresponse (by decide)
  refine wp_ignore_bind.mpr (wp_recorded fun r hr => ?_)
  cases h₂ with
  | collided hexists hjammed =>
    -- The start found an entry: the launcher is told that something exists.
    refine ⟨htruthful.send reason_lasting (fun _ => .inr (.inr hjammed.collided)) r,
      wp_ret.mpr fun hheard _ => ?_⟩
    obtain rfl := sent_of_heard hheard hr
    obtain rfl : startupExists = response := (if_pos hexists).symm.trans hresponse
    exact Kernel.response_sent hr (untold_of_unanswered hnone hjammed.unanswered)
  | failed hheld hfresh =>
    -- It failed otherwise: nothing collided, before the answer or after it.
    refine ⟨htruthful.send reason_lasting (fun h => .inr (.inl (hheld (hkind h)))) r,
      wp_ret.mpr fun _ hcollided => ?_⟩
    exact absurd hcollided (hfresh.settle _ r).free
  | answered hready hsettled =>
    -- The launcher has its answer, and what comes after it does not collide.
    refine ⟨htruthful.send reason_lasting (fun h => .inl (hready (hkind h))) r,
      wp_ret.mpr fun _ hcollided => ?_⟩
    exact absurd hcollided hsettled.cons.free

/-- A launcher that is told that the session exists fails with that. -/
theorem runs_launcher {config : StartupConfig} (hheard : Heard n s₀ F)
    (hwritten : (writeStartupConfig config).2 = .ok ())
    (h : (after (.runner n) s₀ log).response n = some startupExists) :
    ∃ log', Runs (besides n s₀ F log) (launchRunner session config).run log'
      (.ret (.error sessionExists)) := by
  have hspawn : besides n s₀ F log [] (.process (.spawnRunner session)) (.ok ()) :=
    ⟨[], List.nil_suffix, .inl ⟨_, rfl⟩, by rintro _ ⟨⟩⟩
  have hsend : ∀ log' bytes, besides n s₀ F log log' (.process (.sendStartup bytes)) (.ok ()) := by
    refine fun log' bytes => ⟨[], List.nil_suffix, .inl ?_, by rintro _ ⟨⟩⟩
    have hstep : s₀.processStep (.caller n) (.sendStartup bytes) (.ok ()) =
        some (.ok (), { s₀ with startup := update s₀.startup n (some bytes) }) := by
      simp only [Kernel.processStep, hheard.alive, Bool.false_eq_true, if_false]
    exact ⟨_, hstep⟩
  have hreceive : ∀ log', besides n s₀ F log log' (.process .recvResponse) (.ok startupExists) := by
    refine fun log' => ⟨log, List.suffix_refl _, .inl ?_, by rintro _ ⟨⟩⟩
    have hstep : (after (.runner n) s₀ log).processStep (.caller n) .recvResponse
        (.ok startupExists) = some (.ok startupExists, after (.runner n) s₀ log) := by
      simp only [Kernel.processStep, h]
    exact ⟨_, hstep⟩
  have hwait : ∀ log', besides n s₀ F log log' (.process .waitRunner) () :=
    fun log' => ⟨[], List.nil_suffix, .inl ⟨_, rfl⟩, by rintro _ ⟨⟩⟩
  have h₀ : Runs (besides n s₀ F log) (launchRunner session config).run [] _ := .refl
  have h₁ := h₀.call (.ok ()) hspawn
  have h₂ := Runs.call h₁ (.ok ()) (hsend _ _)
  rw [hwritten] at h₂
  have h₃ := Runs.call h₂ (.ok startupExists) (hreceive _)
  exact ⟨_, Runs.call h₃ () (hwait _)⟩

end answers

end Collision

/-- Where a launch says that something exists, the ID is held. -/
def MeansHeld (R : Registry) (session : SessionId) (config : StartupConfig) (n : Nat) (s₀ : Kernel)
    (F : Faults) (log : RunnerLog) : Prop :=
  ∀ log' error,
    Runs (besides n s₀ F log) (launchRunner session config).run log' (.ret (.error error)) →
      error.kind = .alreadyExists → Held R session s₀ log

/-- **`session exists` means that the ID is held, exactly when no start collides with anything
else**: whatever the runtime directory holds and whatever calls fail, while nothing runs but a
runner and its launcher, a launch says that something exists only if the ID is held or the runner
found an entry that it was to create. When a runner that is heard has returned and found one, the
launch does say so; and the entry is the ID's own, or that of an expired record, a trace or a
temporary file. -/
theorem conflict_exact (n : Nat) (s₀ : Kernel) (F : Faults) (R : Registry) (serde : Serde)
    (self : Self) (session : SessionId) (config : StartupConfig) (log : RunnerLog)
    (p : Prog (Except IoError Unit)) (hF : F.Plain) (hR : R.Of serde self)
    (hnone : s₀.response n = none)
    (hrunner : Runs (alone (.runner n) s₀ F) (hiddenRunner serde self session).run log p) :
    ((Collided log → Held R session s₀ log) → MeansHeld R session config n s₀ F log) ∧
      (Heard n s₀ F → (writeStartupConfig config).2 = .ok () → ∀ r, p = .ret r →
        (MeansHeld R session config n s₀ F log ↔ (Collided log → Held R session s₀ log)) ∧
          (Collided log → Held R session s₀ log ∨ Leftover R self session n s₀ log)) := by
  have hgood : Conflict.Truthful (Collision.Reason R session s₀) n s₀ [] :=
    Conflict.Untold.truthful hnone
  obtain ⟨htruthful, houtcome⟩ :=
    log_sound hgood (Collision.wp_runnerOutcome hF hR hnone) hrunner
  -- The launcher says `session exists` only where the runner did, and that was for a reason.
  have henough : (Collided log → Held R session s₀ log) →
      MeansHeld R session config n s₀ F log := by
    intro hcollided log' error hlauncher hkind
    obtain ⟨-, htold⟩ := log_sound trivial Conflict.wp_launchRunner hlauncher
    exact (htruthful (htold _ rfl error rfl hkind)).elim id hcollided
  refine ⟨henough, fun hheard hwritten r hreturned => ?_⟩
  -- A runner that is heard and has collided makes the launcher say it.
  have hexists : Collided log → ∃ log',
      Runs (besides n s₀ F log) (launchRunner session config).run log'
        (.ret (.error sessionExists)) :=
    fun hcollided => Collision.runs_launcher hheard hwritten (houtcome r hreturned hheard hcollided)
  refine ⟨⟨fun hmeans hcollided => ?_, henough⟩, fun hcollided => ?_⟩
  · obtain ⟨log', hlauncher⟩ := hexists hcollided
    exact hmeans log' sessionExists hlauncher rfl
  · -- The reasons of such an answer were found when the condition was shown to be enough.
    obtain ⟨log', hlauncher⟩ := hexists hcollided
    exact conflict_excused n s₀ F R serde self session config log log' p sessionExists hF hR hnone
      hrunner hlauncher rfl

/-! ## Two starts -/

namespace Collision

open Presence (self session)

/-- A command with a trace. -/
def traced : StartupConfig := ⟨true, [ascii "/bin/true"], 24, 80⟩

/-- A directory with the given files; a runner is sent its configuration. -/
def awaited (files : List (Name × Bytes)) : Kernel :=
  { Kernel.stocked 0 100 files with
    startup := fun _ => some (writeStartupConfig traced).1
    response := fun _ => none }

theorem awaited_covers {files : List (Name × Bytes)} :
    Kernel.Stage.Covers (awaited files, files.map Prod.fst) (.runner 0) where
  entries name h := by
    have hcovers : Kernel.Stage.Covers (Kernel.stocked 0 100 files, files.map Prod.fst)
        (.runner 0) := Kernel.stocked_covers
    exact hcovers.entries name h
  startup _ _ := rfl
  response _ h := by cases h

theorem awaited_heard (files : List (Name × Bytes)) : Heard 0 (awaited files) .none where
  alive _ := rfl
  sends _ _ h := h

/-- The play of a runner: what its launcher is told. -/
def told (files : List (Name × Bytes)) : Option UInt8 := do
  let (_, stage, _) ← (hiddenRunner jsonSerde self session).run.run
    (Kernel.Stage.recorded (.runner 0)) ((awaited files, files.map Prod.fst), [])
  stage.1.response 0

/-- The runner runs alone in a directory with the given files, and returns. -/
def Returns (files : List (Name × Bytes)) (log : RunnerLog) (r : Except IoError Unit) : Prop :=
  Runs (alone (.runner 0) (awaited files) .none) (hiddenRunner jsonSerde self session).run log
    (.ret r)

/-- Its launcher fails because the session exists. -/
def Denied (files : List (Name × Bytes)) (log : RunnerLog) : Prop :=
  ∃ log', Runs (besides 0 (awaited files) .none log) (launchRunner session traced).run log'
    (.ret (.error sessionExists))

/-- The session's ID is held in a directory with the given files. -/
abbrev IsHeld (files : List (Name × Bytes)) (log : RunnerLog) : Prop :=
  Held Presence.registry session (awaited files) log

/-- The refusals of a start in a directory with the given files mean that its ID is held. -/
abbrev Means (files : List (Name × Bytes)) (log : RunnerLog) : Prop :=
  MeansHeld Presence.registry session traced 0 (awaited files) .none log

/-- A launcher that is told that the session exists in the play is told so in a run. -/
theorem runs_told {files : List (Name × Bytes)} (h : told files = some startupExists) :
    ∃ log r, Returns files log r ∧ Denied files log := by
  simp only [told, Option.bind_eq_bind, Option.bind_eq_some_iff, Prod.exists] at h
  obtain ⟨r, s', names, log, hplay, htold⟩ := h
  obtain ⟨hrun, hstate, -⟩ := runs_recorded awaited_covers hplay
  dsimp only at hstate
  rw [← hstate] at htold
  exact ⟨log, r, hrun, runs_launcher (awaited_heard files) (by decide) htold⟩

/-- A trace that was left. -/
def leftTrace : List (Name × Bytes) := [((sessionPaths session).trace, [])]

/-- A temporary file that was left. -/
def leftTemporary : List (Name × Bytes) :=
  [(temporaryName (sessionPaths session).metadata self.pid, [])]

/-- A record of a session that finished. -/
def finished : List (Name × Bytes) :=
  [((sessionPaths session).metadata,
    jsonSerde.toVec (.completed session.toText 10 50 (.code 0) 0 false))]

theorem told_leftTrace : told leftTrace = some startupExists := by decide +kernel

theorem told_leftTemporary : told leftTemporary = some startupExists := by decide +kernel

theorem told_finished : told finished = some startupExists := by decide +kernel

/-- Where the session has neither a record nor a socket, its ID is not held. -/
theorem not_held {files : List (Name × Bytes)} {log : RunnerLog}
    (hnames : ∀ name ∈ files.map Prod.fst, name ≠ (sessionPaths session).metadata ∧
      name ≠ (sessionPaths session).socket) : ¬ IsHeld files log := by
  have hlisted : ∀ name, (awaited files).dir name ≠ none → name ∈ files.map Prod.fst :=
    fun name hsome => awaited_covers.entries name (Option.ne_none_iff_isSome.mp hsome)
  rintro (⟨metadata, now, ⟨n, hn, -⟩, -⟩ | ⟨n, hn, -⟩)
  · have hname := hlisted (sessionPaths session).metadata (by simp [hn])
    exact (hnames _ hname).1 rfl
  · have hname := hlisted (sessionPaths session).socket (by simp [hn])
    exact (hnames _ hname).2 rfl

/-- Where the session has no socket, no lock, no trace and no temporary file, nothing is left. -/
theorem not_leftover {files : List (Name × Bytes)} {log : RunnerLog}
    (hnames : ∀ name ∈ [(sessionPaths session).socket, (sessionPaths session).lock,
      (sessionPaths session).trace, temporaryName (sessionPaths session).metadata self.pid],
        name ∉ files.map Prod.fst) : ¬ Leftover Presence.registry self session 0 (awaited files) log := by
  have hnone : ∀ name ∈ [(sessionPaths session).socket, (sessionPaths session).lock,
      (sessionPaths session).trace, temporaryName (sessionPaths session).metadata self.pid],
        ¬ ((awaited files).dir name).isSome :=
    fun name hname hsome => hnames name hname (awaited_covers.entries name hsome)
  simp only [List.forall_mem_cons] at hnone
  obtain ⟨hsocket, hlock, htrace, htemporary, -⟩ := hnone
  rintro (hoverdue | ⟨-, hleft⟩ | hleft)
  · exact hoverdue.stale.2.elim hsocket hlock
  · exact htrace hleft.trace
  · exact htemporary hleft

end Collision

open Collision in
/-- A trace is all that is left of the session, or a temporary file is, and the launcher is told that
the session exists. -/
theorem conflict_left :
    (∃ log r, Returns leftTrace log r ∧ Denied leftTrace log ∧ ¬ IsHeld leftTrace log) ∧
      ∃ log r, Returns leftTemporary log r ∧ Denied leftTemporary log ∧
        ¬ IsHeld leftTemporary log := by
  obtain ⟨log, r, hrunner, hlauncher⟩ := runs_told told_leftTrace
  obtain ⟨log', r', hrunner', hlauncher'⟩ := runs_told told_leftTemporary
  exact ⟨⟨log, r, hrunner, hlauncher, not_held (by decide)⟩,
    log', r', hrunner', hlauncher', not_held (by decide)⟩

open Collision in
/-- A trace that was left collides with the start, and a session that finished is held. -/
theorem conflict_exact_starts :
    (∃ log r, Returns leftTrace log r ∧ Collided log ∧ ¬ Means leftTrace log ∧
      Leftover Presence.registry Presence.self Presence.session 0 (awaited leftTrace) log) ∧
    ∃ log r, Returns finished log r ∧ Denied finished log ∧ IsHeld finished log ∧
      Means finished log := by
  constructor
  · obtain ⟨log, r, hrunner, log', hlauncher⟩ := runs_told told_leftTrace
    obtain ⟨-, hexact⟩ := conflict_exact 0 (awaited leftTrace) .none Presence.registry jsonSerde
      Presence.self Presence.session traced log (.ret r) Faults.plain_none ⟨rfl, rfl⟩ rfl hrunner
    obtain ⟨hmeans, hleft⟩ := hexact (awaited_heard leftTrace) (by decide) r rfl
    have hunheld : ¬ IsHeld leftTrace log := not_held (by decide)
    have hdenied : ¬ Means leftTrace log := fun h => hunheld (h log' sessionExists hlauncher rfl)
    have hcollided : Collided log := by
      by_contra hfree
      exact hdenied (hmeans.mpr fun h => absurd h hfree)
    exact ⟨log, r, hrunner, hcollided, hdenied, (hleft hcollided).resolve_left hunheld⟩
  · obtain ⟨log, r, hrunner, log', hlauncher⟩ := runs_told told_finished
    obtain ⟨-, hexact⟩ := conflict_exact 0 (awaited finished) .none Presence.registry jsonSerde
      Presence.self Presence.session traced log (.ret r) Faults.plain_none ⟨rfl, rfl⟩ rfl hrunner
    obtain ⟨hmeans, hleft⟩ := hexact (awaited_heard finished) (by decide) r rfl
    have hrelies : Means finished log :=
      hmeans.mpr fun hcollided => (hleft hcollided).resolve_right (not_leftover (by decide))
    exact ⟨log, r, hrunner, ⟨log', hlauncher⟩, hrelies log' sessionExists hlauncher rfl, hrelies⟩

end AfkCli
