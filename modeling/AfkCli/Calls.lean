import AfkCli.Hoare
import AfkCli.Registry

/-!
# Rules for the calls of the system

One rule for each call that the system answers: the assertion that holds until the call is made,
what the caller owes at the call, and what it may conclude from each answer.

## Main results

* `wp_lstat`, `wp_removeFile`, `wp_createNew`, …: files
* `wp_bindSocket`, `wp_connect`, …: sockets
-/

namespace AfkCli

open Interaction Discipline Function

variable {α : Type} {A : Outside} {F : Failures} {D : Discipline (Kernel.machine A F)} {i : Proc}
  {s : Kernel}

/-- What the caller has when its call is made. -/
structure Ready (D : Discipline (Kernel.machine A F)) (i : Proc) (op : Call) (P : Kernel → Prop)
    (s : Kernel) (n : Proc → Option Call) : Prop where
  assertion : P s
  inv : D.inv s
  next : n i = some op
  guard : D.guard i op s n

section rules

variable {Q : Except IoError α → Kernel → Prop}

/-- The rule for a call on files: it does what the system does, or fails and changes nothing. -/
theorem wp_file {call : FileCall} {Q : call.Answer → Kernel → Prop} (P : Kernel → Prop) (hP : P s)
    (hstable : D.Stable i (some (.file call)) P)
    (h : ∀ s' n, Ready D i (.file call) P s' n → D.guar i (.file call) s' ∧
      (∀ outside, A (.file call) outside → D.inv (s'.fileStep i call outside).2 →
        Q (s'.fileStep i call outside).1 (s'.fileStep i call outside).2) ∧
      ∀ r error, call.error? r = some error → F (.file call) s' error → Q r s') :
    D.wp i (file call) Q s := by
  refine wp_perform P hP hstable fun s' n hP' hinv hn hg => ?_
  obtain ⟨hguar, hk, hfails⟩ := h s' n ⟨hP', hinv, hn, hg⟩
  refine ⟨hguar, ?_⟩
  rintro r s'' hinv' (⟨outside, ho, he⟩ | ⟨error, herror, hF, rfl⟩)
  · have hstep := Kernel.step_file he
    have hr := congrArg Prod.fst hstep
    have hs := congrArg Prod.snd hstep
    dsimp only at hr hs
    subst hr hs
    exact hk outside ho hinv'
  · exact hfails r error herror hF

/-- The rule for a call on sockets: it does what the system does, or fails and changes nothing. -/
theorem wp_socket {call : SocketCall} {Q : call.Answer → Kernel → Prop} (P : Kernel → Prop)
    (hP : P s) (hstable : D.Stable i (some (.socket call)) P)
    (h : ∀ s' n, Ready D i (.socket call) P s' n → D.guar i (.socket call) s' ∧
      (∀ outside, A (.socket call) outside → D.inv (s'.socketStep i call outside).2 →
        Q (s'.socketStep i call outside).1 (s'.socketStep i call outside).2) ∧
      ∀ r error, call.error? r = some error → F (.socket call) s' error → Q r s') :
    D.wp i (socket call) Q s := by
  refine wp_perform P hP hstable fun s' n hP' hinv hn hg => ?_
  obtain ⟨hguar, hk, hfails⟩ := h s' n ⟨hP', hinv, hn, hg⟩
  refine ⟨hguar, ?_⟩
  rintro r s'' hinv' (⟨outside, ho, he⟩ | ⟨error, herror, hF, rfl⟩)
  · have hstep := Kernel.step_socket he
    have hr := congrArg Prod.fst hstep
    have hs := congrArg Prod.snd hstep
    dsimp only at hr hs
    subst hr hs
    exact hk outside ho hinv'
  · exact hfails r error herror hF

/-- A call that failed was answered with its error. -/
theorem fails_error {fails : IoError → Prop} {P : Except IoError α → Prop}
    (h : ∀ error, fails error → P (.error error)) :
    ∀ r error, errorOf r = some error → fails error → P r := by
  rintro r error hr hfails
  rw [Kernel.errorOf_eq_some.mp hr]
  exact h error hfails

/-! ## Files -/

/-- Looking at an entry changes nothing, and reports what is there. -/
theorem wp_lstat {site : Site} {name : Name} {Q : Except IoError Stat → Kernel → Prop}
    (P : Kernel → Prop) (hP : P s) (hstable : D.Stable i (some (.file (.lstat site name))) P)
    (h : ∀ s' n, Ready D i (.file (.lstat site name)) P s' n →
      D.guar i (.file (.lstat site name)) s' ∧
        (∀ error, F (.file (.lstat site name)) s' error → Q (.error error) s') ∧
        (s'.dir name = none → Q (.error Kernel.notFound) s') ∧
        ∀ m, s'.dir name = some m → Q (.ok (s'.inode m).stat) s') :
    D.wp i (ask (file (.lstat site name))).run Q s := by
  refine wp_file P hP hstable fun s' n hready => ?_
  obtain ⟨hguar, hfails, hnone, hsome⟩ := h s' n hready
  refine ⟨hguar, fun outside _ _ => ?_, fails_error hfails⟩
  simp only [Kernel.fileStep]
  cases hdir : s'.dir name with
  | none => exact hnone hdir
  | some m => exact hsome m hdir

/-- Removing an entry that is not a directory unlinks its name. -/
theorem wp_removeFile {site : Site} {name : Name} {Q : Except IoError Unit → Kernel → Prop}
    (P : Kernel → Prop) (hP : P s) (hstable : D.Stable i (some (.file (.removeFile site name))) P)
    (h : ∀ s' n, Ready D i (.file (.removeFile site name)) P s' n →
      D.guar i (.file (.removeFile site name)) s' ∧
        (∀ error, F (.file (.removeFile site name)) s' error → Q (.error error) s') ∧
        (s'.dir name = none → Q (.error Kernel.notFound) s') ∧
        ∀ m, s'.dir name = some m →
          ((s'.inode m).kind = .directory → Q (.error Kernel.isDirectory) s') ∧
          ((s'.inode m).kind ≠ .directory → D.inv (s'.unlink name) →
            Q (.ok ()) (s'.unlink name))) :
    D.wp i (ask (file (.removeFile site name))).run Q s := by
  refine wp_file P hP hstable fun s' n hready => ?_
  obtain ⟨hguar, hfails, hnone, hsome⟩ := h s' n hready
  refine ⟨hguar, fun outside _ hinv => ?_, fails_error hfails⟩
  simp only [Kernel.fileStep] at hinv ⊢
  cases hdir : s'.dir name with
  | none => exact hnone hdir
  | some m =>
    simp only [hdir] at hinv ⊢
    by_cases hkind : (s'.inode m).kind = .directory
    · simp only [if_pos hkind]
      exact (hsome m hdir).1 hkind
    · simp only [if_neg hkind] at hinv ⊢
      exact (hsome m hdir).2 hkind hinv

/-- A file is created only under a name that is free. -/
theorem wp_createNew {name : Name} {mode : Nat} {Q : Except IoError Fd → Kernel → Prop}
    (P : Kernel → Prop) (hP : P s) (hstable : D.Stable i (some (.file (.createNew name mode))) P)
    (h : ∀ s' n, Ready D i (.file (.createNew name mode)) P s' n →
      D.guar i (.file (.createNew name mode)) s' ∧
        (∀ error, F (.file (.createNew name mode)) s' error → Q (.error error) s') ∧
        (∀ m, s'.dir name = some m → Q (.error Kernel.fileExists) s') ∧
        (s'.dir name = none → D.inv (s'.create name (s'.newFile i mode)) →
          Q (.ok s'.fresh) (s'.create name (s'.newFile i mode)))) :
    D.wp i (ask (file (.createNew name mode))).run Q s := by
  refine wp_file P hP hstable fun s' n hready => ?_
  obtain ⟨hguar, hfails, hsome, hnone⟩ := h s' n hready
  refine ⟨hguar, fun outside _ hinv => ?_, fails_error hfails⟩
  simp only [Kernel.fileStep] at hinv ⊢
  cases hdir : s'.dir name with
  | none =>
    simp only [hdir] at hinv ⊢
    exact hnone hdir hinv
  | some m => exact hsome m hdir

/-- Changing permissions changes the inode behind the name. -/
theorem wp_setPermissions {name : Name} {mode : Nat} {Q : Except IoError Unit → Kernel → Prop}
    (P : Kernel → Prop) (hP : P s)
    (hstable : D.Stable i (some (.file (.setPermissions name mode))) P)
    (h : ∀ s' n, Ready D i (.file (.setPermissions name mode)) P s' n →
      D.guar i (.file (.setPermissions name mode)) s' ∧
        (∀ error, F (.file (.setPermissions name mode)) s' error → Q (.error error) s') ∧
        (s'.dir name = none → Q (.error Kernel.notFound) s') ∧
        ∀ m, s'.dir name = some m → D.inv (s'.modify m fun node => { node with mode }) →
          Q (.ok ()) (s'.modify m fun node => { node with mode })) :
    D.wp i (ask (file (.setPermissions name mode))).run Q s := by
  refine wp_file P hP hstable fun s' n hready => ?_
  obtain ⟨hguar, hfails, hnone, hsome⟩ := h s' n hready
  refine ⟨hguar, fun outside _ hinv => ?_, fails_error hfails⟩
  simp only [Kernel.fileStep] at hinv ⊢
  cases hdir : s'.dir name with
  | none => exact hnone hdir
  | some m =>
    simp only [hdir] at hinv ⊢
    exact hsome m hdir hinv

/-! ## Sockets -/

/-- A socket is bound only under a name that is free. -/
theorem wp_bindSocket {name : Name} {Q : Except IoError Fd → Kernel → Prop}
    (P : Kernel → Prop) (hP : P s) (hstable : D.Stable i (some (.socket (.bind name))) P)
    (h : ∀ s' n, Ready D i (.socket (.bind name)) P s' n →
      D.guar i (.socket (.bind name)) s' ∧
        (∀ error, F (.socket (.bind name)) s' error → Q (.error error) s') ∧
        (∀ m, s'.dir name = some m → Q (.error Kernel.addrInUse) s') ∧
        (s'.dir name = none → D.inv (s'.create name (s'.newSocket i)) →
          Q (.ok s'.fresh) (s'.create name (s'.newSocket i)))) :
    D.wp i (ask (socket (.bind name))).run Q s := by
  refine wp_socket P hP hstable fun s' n hready => ?_
  obtain ⟨hguar, hfails, hsome, hnone⟩ := h s' n hready
  refine ⟨hguar, fun outside _ hinv => ?_, fails_error hfails⟩
  simp only [Kernel.socketStep] at hinv ⊢
  cases hdir : s'.dir name with
  | none =>
    simp only [hdir] at hinv ⊢
    exact hnone hdir hinv
  | some m => exact hsome m hdir

theorem wp_listen {fd : Fd} {Q : Except IoError Unit → Kernel → Prop}
    (P : Kernel → Prop) (hP : P s) (hstable : D.Stable i (some (.socket (.listen fd))) P)
    (h : ∀ s' n, Ready D i (.socket (.listen fd)) P s' n →
      D.guar i (.socket (.listen fd)) s' ∧
        (∀ error, F (.socket (.listen fd)) s' error → Q (.error error) s') ∧
        (D.inv (s'.modify fd fun node => { node with listener := .listening }) →
          Q (.ok ()) (s'.modify fd fun node => { node with listener := .listening }))) :
    D.wp i (ask (socket (.listen fd))).run Q s := by
  refine wp_socket P hP hstable fun s' n hready => ?_
  obtain ⟨hguar, hfails, hok⟩ := h s' n hready
  exact ⟨hguar, fun outside _ hinv => hok hinv, fails_error hfails⟩

theorem wp_closeListener {fd : Fd} {Q : Unit → Kernel → Prop}
    (P : Kernel → Prop) (hP : P s) (hstable : D.Stable i (some (.socket (.closeListener fd))) P)
    (h : ∀ s' n, Ready D i (.socket (.closeListener fd)) P s' n →
      D.guar i (.socket (.closeListener fd)) s' ∧
        (D.inv (s'.modify fd fun node => { node with listener := .closed }) →
          Q () (s'.modify fd fun node => { node with listener := .closed }))) :
    D.wp i (socket (.closeListener fd)) Q s := by
  refine wp_socket P hP hstable fun s' n hready => ?_
  obtain ⟨hguar, hok⟩ := h s' n hready
  refine ⟨hguar, fun outside _ hinv => hok hinv, ?_⟩
  rintro r error ⟨⟩

/-- A connection is made only to a socket that listens. -/
theorem wp_connect {name : Name} {Q : Except IoError Fd → Kernel → Prop}
    (P : Kernel → Prop) (hP : P s) (hstable : D.Stable i (some (.socket (.connect name))) P)
    (h : ∀ s' n, Ready D i (.socket (.connect name)) P s' n →
      D.guar i (.socket (.connect name)) s' ∧
        (∀ error, F (.socket (.connect name)) s' error → Q (.error error) s') ∧
        (s'.dir name = none → Q (.error Kernel.notFound) s') ∧
        ∀ m, s'.dir name = some m →
          ((s'.inode m).listener ≠ .listening → Q (.error Kernel.connectionRefused) s') ∧
          ((s'.inode m).listener = .listening →
            Q (.ok s'.fresh) { s' with fresh := s'.fresh + 1 })) :
    D.wp i (ask (socket (.connect name))).run Q s := by
  refine wp_socket P hP hstable fun s' n hready => ?_
  obtain ⟨hguar, hfails, hnone, hsome⟩ := h s' n hready
  refine ⟨hguar, fun outside _ hinv => ?_, fails_error hfails⟩
  simp only [Kernel.socketStep]
  cases hdir : s'.dir name with
  | none => exact hnone hdir
  | some m =>
    by_cases hl : (s'.inode m).listener = .listening
    · simp only [if_pos hl]
      exact (hsome m hdir).2 hl
    · simp only [if_neg hl]
      exact (hsome m hdir).1 hl

/-- The peer of a stream is the user. -/
theorem wp_peerUid {stream : Fd} {Q : Except IoError Nat → Kernel → Prop}
    (P : Kernel → Prop) (hP : P s) (hstable : D.Stable i (some (.socket (.peerUid stream))) P)
    (h : ∀ s' n, Ready D i (.socket (.peerUid stream)) P s' n →
      D.guar i (.socket (.peerUid stream)) s' ∧
        (∀ error, F (.socket (.peerUid stream)) s' error → Q (.error error) s') ∧ Q (.ok s'.uid) s') :
    D.wp i (ask (socket (.peerUid stream))).run Q s := by
  refine wp_socket P hP hstable fun s' n hready => ?_
  obtain ⟨hguar, hfails, hok⟩ := h s' n hready
  exact ⟨hguar, fun _ _ _ => hok, fails_error hfails⟩

theorem wp_closeStream {stream : Fd} {Q : Unit → Kernel → Prop}
    (P : Kernel → Prop) (hP : P s) (hstable : D.Stable i (some (.socket (.close stream))) P)
    (h : ∀ s' n, Ready D i (.socket (.close stream)) P s' n →
      D.guar i (.socket (.close stream)) s' ∧ Q () s') :
    D.wp i (socket (.close stream)) Q s := by
  refine wp_socket P hP hstable fun s' n hready => ?_
  obtain ⟨hguar, hok⟩ := h s' n hready
  refine ⟨hguar, fun _ _ _ => hok, ?_⟩
  rintro r error ⟨⟩

theorem wp_setNonblocking {fd : Fd} {flag : Bool} {Q : Except IoError Unit → Kernel → Prop}
    (P : Kernel → Prop) (hP : P s) (hstable : D.Stable i (some (.socket (.setNonblocking fd flag))) P)
    (h : ∀ s' n, Ready D i (.socket (.setNonblocking fd flag)) P s' n →
      D.guar i (.socket (.setNonblocking fd flag)) s' ∧
        (∀ error, F (.socket (.setNonblocking fd flag)) s' error → Q (.error error) s') ∧
        ∀ r, A (.socket (.setNonblocking fd flag)) r → Q r s') :
    D.wp i (ask (socket (.setNonblocking fd flag))).run Q s := by
  refine wp_socket P hP hstable fun s' n hready => ?_
  obtain ⟨hguar, hfails, hok⟩ := h s' n hready
  exact ⟨hguar, fun r hr _ => hok r hr, fails_error hfails⟩

end rules

end AfkCli
