import AfkCli.Kernel

/-!
# What a call changes

Every call is quiet, or changes the directory, an inode or a mask in one of nine ways. Proofs about
interference split on this, and not on the calls.

## Main definitions

* `Effect`: the change a call makes to the directory and the inodes

## Main results

* `Kernel.effect`: every call of the machine has an effect
* `Kernel.exec_lstat`, `Kernel.exec_connect`, …: what a call answers
-/

namespace AfkCli

open Interaction Function

/-- The directory, the inodes and the masks are as they were. -/
structure SameFiles (s s' : Kernel) : Prop where
  dir : s'.dir = s.dir
  inode : s'.inode = s.inode
  umask : s'.umask = s.umask
  fresh_le : s.fresh ≤ s'.fresh

theorem SameFiles.refl (s : Kernel) : SameFiles s s := ⟨rfl, rfl, rfl, Nat.le_refl _⟩

/-- Who runs, the user and the clock are as they were. -/
structure SameHost (s s' : Kernel) : Prop where
  killed : s'.killed = s.killed
  uid : s'.uid = s.uid
  clock : s'.clock = s.clock

/-- The change that a call of process `j` makes to the directory, the inodes and the masks. -/
inductive Effect (j : Proc) : Call → Kernel → Kernel → Prop
  | quiet {op : Call} {s s' : Kernel} (hsame : SameFiles s s') : Effect j op s s'
  | mask {mask : Nat} {s : Kernel} :
      Effect j (.process (.umask mask)) s { s with umask := update s.umask j mask }
  | createFile {name : Name} {mode : Nat} {s : Kernel} (hnone : s.dir name = none) :
      Effect j (.file (.createNew name mode)) s (s.create name (s.newFile j mode))
  | bind {name : Name} {s : Kernel} (hnone : s.dir name = none) :
      Effect j (.socket (.bind name)) s (s.create name (s.newSocket j))
  | unlink {site : Site} {name : Name} {n : Nat} {s : Kernel} (hsome : s.dir name = some n) :
      Effect j (.file (.removeFile site name)) s (s.unlink name)
  | rename {source target : Name} {n : Nat} {s : Kernel} (hsome : s.dir source = some n) :
      Effect j (.file (.rename source target)) s
        { s with dir := update (update s.dir source none) target (some n) }
  | write {site : Site} {fd : Fd} {bytes : Bytes} {s : Kernel} :
      Effect j (.file (.writeAll site fd bytes)) s
        (s.modify fd fun node => { node with bytes := node.bytes ++ bytes })
  | chmod {name : Name} {mode n : Nat} {s : Kernel} (hsome : s.dir name = some n) :
      Effect j (.file (.setPermissions name mode)) s (s.modify n fun node => { node with mode })
  | listen {fd : Fd} {s : Kernel} :
      Effect j (.socket (.listen fd)) s (s.modify fd fun node => { node with listener := .listening })
  | close {fd : Fd} {s : Kernel} :
      Effect j (.socket (.closeListener fd)) s
        (s.modify fd fun node => { node with listener := .closed })

/-! ## Entries and inodes -/

namespace Effect

variable {j : Proc} {op : Call} {s s' : Kernel} {name : Name} {n : Nat}

/-- Where an entry comes from: it was there, the call created it, or the call renamed it. -/
theorem appears (h : Effect j op s s') (hn : s'.dir name = some n) :
    s.dir name = some n ∨
      (s.dir name = none ∧ n = s.fresh ∧
        ((∃ mode, op = .file (.createNew name mode) ∧ s'.inode n = s.newFile j mode) ∨
          op = .socket (.bind name) ∧ s'.inode n = s.newSocket j)) ∨
      ∃ source, op = .file (.rename source name) ∧ s.dir source = some n := by
  cases h with
  | quiet hsame => exact .inl (by rwa [hsame.dir] at hn)
  | mask | write | chmod | listen | close => exact .inl hn
  | @createFile other mode _ hnone =>
    by_cases hname : name = other
    · subst hname
      simp only [Kernel.create, update_self, Option.some.injEq] at hn
      subst hn
      exact .inr (.inl ⟨hnone, rfl, .inl ⟨mode, rfl, update_self ..⟩⟩)
    · exact .inl (by simpa only [Kernel.create, update_of_ne hname] using hn)
  | @bind other _ hnone =>
    by_cases hname : name = other
    · subst hname
      simp only [Kernel.create, update_self, Option.some.injEq] at hn
      subst hn
      exact .inr (.inl ⟨hnone, rfl, .inr ⟨rfl, update_self ..⟩⟩)
    · exact .inl (by simpa only [Kernel.create, update_of_ne hname] using hn)
  | @unlink site other m _ hsome =>
    by_cases hname : name = other
    · subst hname
      simp [Kernel.unlink] at hn
    · exact .inl (by simpa only [Kernel.unlink, update_of_ne hname] using hn)
  | @rename source target m _ hsome =>
    by_cases hname : name = target
    · subst hname
      simp only [update_self, Option.some.injEq] at hn
      subst hn
      exact .inr (.inr ⟨source, rfl, hsome⟩)
    · by_cases hsource : name = source
      · subst hsource
        simp [update_of_ne hname] at hn
      · exact .inl (by simpa only [update_of_ne hname, update_of_ne hsource] using hn)

/-- What can become of an entry: it stays, or the call removes or renames it. -/
theorem stays (h : Effect j op s s') (hn : s.dir name = some n) :
    s'.dir name = some n ∨ (∃ site, op = .file (.removeFile site name)) ∨
      ∃ other, op = .file (.rename other name) ∨ op = .file (.rename name other) := by
  cases h with
  | quiet hsame => exact .inl (by rwa [hsame.dir])
  | mask | write | chmod | listen | close => exact .inl hn
  | @createFile other mode _ hnone =>
    have hname : name ≠ other := fun he => by simp [← he, hn] at hnone
    exact .inl (by simpa only [Kernel.create, update_of_ne hname] using hn)
  | @bind other _ hnone =>
    have hname : name ≠ other := fun he => by simp [← he, hn] at hnone
    exact .inl (by simpa only [Kernel.create, update_of_ne hname] using hn)
  | @unlink site other m _ hsome =>
    by_cases hname : name = other
    · exact .inr (.inl ⟨site, hname ▸ rfl⟩)
    · exact .inl (by simpa only [Kernel.unlink, update_of_ne hname] using hn)
  | @rename source target m _ hsome =>
    by_cases hname : name = target
    · exact .inr (.inr ⟨source, .inl (hname ▸ rfl)⟩)
    · by_cases hsource : name = source
      · exact .inr (.inr ⟨target, .inr (hsource ▸ rfl)⟩)
      · exact .inl (by simpa only [update_of_ne hname, update_of_ne hsource] using hn)

theorem fresh_le (h : Effect j op s s') : s.fresh ≤ s'.fresh := by
  cases h with
  | quiet hsame => exact hsame.fresh_le
  | mask | unlink | rename | write | chmod | listen | close => exact Nat.le_refl _
  | createFile | bind => exact Nat.le_succ _

/-- An inode keeps its kind, owner and creator. -/
theorem node (h : Effect j op s s') (hn : n < s.fresh) :
    (s'.inode n).kind = (s.inode n).kind ∧ (s'.inode n).uid = (s.inode n).uid ∧
      (s'.inode n).creator = (s.inode n).creator := by
  have hne : n ≠ s.fresh := Nat.ne_of_lt hn
  cases h with
  | quiet hsame => exact hsame.inode ▸ ⟨rfl, rfl, rfl⟩
  | mask | unlink | rename => exact ⟨rfl, rfl, rfl⟩
  | createFile | bind => simp only [Kernel.create, update_of_ne hne, and_self]
  | write | chmod | listen | close =>
    simp only [Kernel.modify, update_apply]
    split <;> simp_all

/-- What can become of a listener: it stays, or the call is on it. -/
theorem listener (h : Effect j op s s') (hn : n < s.fresh) :
    (s'.inode n).listener = (s.inode n).listener ∨
      op = .socket (.listen n) ∧ (s'.inode n).listener = .listening ∨
      op = .socket (.closeListener n) ∧ (s'.inode n).listener = .closed := by
  have hne : n ≠ s.fresh := Nat.ne_of_lt hn
  cases h with
  | quiet hsame => exact .inl (hsame.inode ▸ rfl)
  | mask | unlink | rename => exact .inl rfl
  | createFile | bind => exact .inl (by simp only [Kernel.create, update_of_ne hne])
  | write | chmod =>
    refine .inl ?_
    simp only [Kernel.modify, update_apply]
    split <;> simp_all
  | @listen fd =>
    by_cases hfd : n = fd
    · subst hfd
      exact .inr (.inl ⟨rfl, by simp only [Kernel.modify, update_self]⟩)
    · exact .inl (by simp only [Kernel.modify, update_of_ne hfd])
  | @close fd =>
    by_cases hfd : n = fd
    · subst hfd
      exact .inr (.inr ⟨rfl, by simp only [Kernel.modify, update_self]⟩)
    · exact .inl (by simp only [Kernel.modify, update_of_ne hfd])

end Effect

namespace Kernel

variable {A : Outside} {F : Failures} {i : Proc} {s s' : Kernel}

theorem step_file {call : FileCall} {outside r : call.Answer}
    (h : s.step i (.file call) outside = some (r, s')) : s.fileStep i call outside = (r, s') :=
  Option.some.inj h

theorem step_socket {call : SocketCall} {outside r : call.Answer}
    (h : s.step i (.socket call) outside = some (r, s')) :
    s.socketStep i call outside = (r, s') :=
  Option.some.inj h

theorem step_terminal {call : TerminalCall} {outside r : call.Answer}
    (h : s.step i (.terminal call) outside = some (r, s')) : outside = r ∧ s = s' :=
  Prod.mk.inj (Option.some.inj h)

theorem step_note {note : Note} {outside r : Unit}
    (h : s.step i (.note note) outside = some (r, s')) : s = s' :=
  (Prod.mk.inj (Option.some.inj h)).2

/-! ## Effects -/

theorem fileStep_effect (call : FileCall) (outside : call.Answer) :
    Effect i (.file call) s (s.fileStep i call outside).2 := by
  cases call <;> simp only [fileStep] <;>
    first
    | exact .quiet (.refl s)
    | exact .write
    | (split <;> first
        | exact .quiet (.refl s)
        | exact .createFile (by assumption)
        | exact .rename (by assumption)
        | exact .chmod (by assumption)
        | exact .quiet ⟨rfl, rfl, rfl, Nat.le_refl _⟩
        | (split <;> first | exact .quiet (.refl s) | exact .unlink (by assumption)))

theorem socketStep_effect (call : SocketCall) (outside : call.Answer) :
    Effect i (.socket call) s (s.socketStep i call outside).2 := by
  cases call <;> simp only [socketStep] <;>
    first
    | exact .quiet (.refl s)
    | exact .listen
    | exact .close
    | (split <;> first
        | exact .quiet (.refl s)
        | exact .bind (by assumption)
        | (split <;> first
            | exact .quiet (.refl s)
            | exact .quiet ⟨rfl, rfl, rfl, Nat.le_succ _⟩))

theorem processStep_effect {call : ProcessCall} {outside r : call.Answer}
    (h : s.processStep i call outside = some (r, s')) :
    Effect i (.process call) s s' ∧ SameHost s s' := by
  cases call <;> simp only [processStep] at h <;> repeat' split at h
  all_goals
    simp only [Option.some.injEq, Prod.mk.injEq, reduceCtorEq] at h
    try obtain ⟨-, rfl⟩ := h
    try first
      | exact ⟨.quiet ⟨rfl, rfl, rfl, Nat.le_refl _⟩, ⟨rfl, rfl, rfl⟩⟩
      | exact ⟨.mask, ⟨rfl, rfl, rfl⟩⟩

/-- The change a call of the machine makes; a call that fails makes none. -/
theorem effect {op : Call} {r : op.Answer} (h : (machine A F).exec i op s r s') :
    Effect i op s s' := by
  obtain ⟨outside, -, h⟩ | ⟨error, -, -, rfl⟩ := h
  swap
  · exact .quiet (.refl _)
  cases op with
  | file call =>
    obtain rfl : _ = s' := congrArg Prod.snd (step_file h)
    exact fileStep_effect call outside
  | socket call =>
    obtain rfl : _ = s' := congrArg Prod.snd (step_socket h)
    exact socketStep_effect call outside
  | process call => exact (processStep_effect h).1
  | terminal call => exact .quiet ((step_terminal h).2 ▸ .refl s)
  | note note => exact .quiet (step_note h ▸ .refl s)

theorem fileStep_same (call : FileCall) (outside : call.Answer) :
    SameHost s (s.fileStep i call outside).2 := by
  cases call <;> simp only [fileStep] <;> repeat' split
  all_goals exact ⟨rfl, rfl, rfl⟩

theorem socketStep_same (call : SocketCall) (outside : call.Answer) :
    SameHost s (s.socketStep i call outside).2 := by
  cases call <;> simp only [socketStep] <;> repeat' split
  all_goals exact ⟨rfl, rfl, rfl⟩

/-- No call changes the user, the clock, or who was killed. -/
theorem exec_same {op : Call} {r : op.Answer} (h : (machine A F).exec i op s r s') :
    SameHost s s' := by
  obtain ⟨outside, -, h⟩ | ⟨error, -, -, rfl⟩ := h
  swap
  · exact ⟨rfl, rfl, rfl⟩
  cases op with
  | file call =>
    obtain rfl : _ = s' := congrArg Prod.snd (step_file h)
    exact fileStep_same call outside
  | socket call =>
    obtain rfl : _ = s' := congrArg Prod.snd (step_socket h)
    exact socketStep_same call outside
  | process call => exact (processStep_effect h).2
  | terminal call => exact (step_terminal h).2 ▸ ⟨rfl, rfl, rfl⟩
  | note note => exact step_note h ▸ ⟨rfl, rfl, rfl⟩

end Kernel

end AfkCli
