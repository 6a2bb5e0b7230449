import AfkCli.Limits
import Mathlib.Data.List.DropRight

/-!
# The output tail

The ring that keeps the last bytes of the terminal output.

## Main definitions

* `OutputTail`: the ring, with its bound
* `OutputTail.extend`: append output, dropping the oldest bytes

## Main results

* `OutputTail.Keeps.extend`: a tail that keeps a history keeps the extended history
* `OutputTail.keeps_foldl`: after any chunks, the tail keeps their concatenation
* `OutputTail.extend_exact`: the snapshot and the flag, however the output was cut into chunks
-/

namespace AfkCli

/-- The marker sent before a tail whose beginning was dropped. -/
def truncationMarker : Bytes :=
  ascii "\r\n[afk: earlier terminal output was truncated]\r\n"

/-- The last bytes of the output, at most `capacity` of them. -/
structure OutputTail where
  bytes : Bytes
  capacity : Nat
  truncated : Bool
  length_le : bytes.length ≤ capacity

namespace OutputTail

def new (capacity : Nat) : OutputTail := ⟨[], capacity, false, Nat.zero_le _⟩

def extend (t : OutputTail) (incoming : Bytes) : OutputTail :=
  if incoming = [] then t
  else if t.capacity = 0 then { t with truncated := true }
  else if hlong : t.capacity ≤ incoming.length then
    { t with
      truncated := t.truncated || (t.bytes ≠ [] || t.capacity < incoming.length)
      bytes := incoming.drop (incoming.length - t.capacity)
      length_le := by simp only [List.length_drop]; omega }
  else
    let overflow := t.bytes.length + incoming.length - t.capacity
    { t with
      truncated := t.truncated || overflow ≠ 0
      bytes := t.bytes.drop overflow ++ incoming
      length_le := by
        have := t.length_le
        simp only [overflow, List.length_append, List.length_drop]
        omega }

def snapshot (t : OutputTail) : Bytes := t.bytes

def isTruncated (t : OutputTail) : Bool := t.truncated

/-- The tail holds exactly the end of the history, and knows whether something was dropped. -/
structure Keeps (t : OutputTail) (history : Bytes) : Prop where
  bytes : t.bytes = history.rtake t.capacity
  truncated : t.truncated = true ↔ t.capacity < history.length

@[simp] theorem capacity_extend (t : OutputTail) (incoming : Bytes) :
    (t.extend incoming).capacity = t.capacity := by
  unfold extend
  split_ifs <;> rfl

theorem keeps_new (capacity : Nat) : (new capacity).Keeps [] where
  bytes := by simp [new]
  truncated := by simp [new]

/-- The end of a longer history: what of the old end still fits, and the new bytes. -/
theorem rtake_append_of_le {α : Type} (history incoming : List α) {n : Nat}
    (h : incoming.length ≤ n) :
    (history ++ incoming).rtake n =
      (history.rtake n).drop ((history.rtake n).length + incoming.length - n) ++ incoming := by
  simp only [List.rtake, List.length_append, List.length_drop, List.drop_drop]
  rw [List.drop_append_of_le_length (by omega)]
  congr 2
  omega

theorem rtake_append_of_ge {α : Type} (history incoming : List α) {n : Nat}
    (h : n ≤ incoming.length) :
    (history ++ incoming).rtake n = incoming.drop (incoming.length - n) := by
  simp only [List.rtake, List.length_append]
  rw [List.drop_append, List.drop_of_length_le (by omega), List.nil_append]
  congr 1
  omega

/-- **Extending keeps the end of the history**, whatever the chunk's length. -/
theorem Keeps.extend {t : OutputTail} {history : Bytes} (h : t.Keeps history) (incoming : Bytes) :
    (t.extend incoming).Keeps (history ++ incoming) := by
  have hlen : t.bytes.length = min t.capacity history.length := by
    rw [h.bytes, List.rtake, List.length_drop]
    omega
  rcases eq_or_ne incoming [] with rfl | hne
  · simpa [OutputTail.extend] using h
  have hpos : 0 < incoming.length := List.length_pos_iff.mpr hne
  rcases Nat.eq_zero_or_pos t.capacity with hzero | hcap
  · refine ⟨?_, ?_⟩
    · simp only [OutputTail.extend, if_neg hne, if_pos hzero]
      rw [h.bytes, hzero]
      simp
    · simp only [OutputTail.extend, if_neg hne, if_pos hzero, List.length_append]
      simp only [true_iff]
      omega
  by_cases hlong : t.capacity ≤ incoming.length
  · refine ⟨?_, ?_⟩
    · simp only [OutputTail.extend, if_neg hne, if_neg hcap.ne', dif_pos hlong]
      rw [rtake_append_of_ge history incoming hlong]
    · have hbytes : t.bytes ≠ [] ↔ 0 < history.length := by
        rw [← List.length_pos_iff, hlen]
        omega
      simp only [OutputTail.extend, if_neg hne, if_neg hcap.ne', dif_pos hlong, Bool.or_eq_true,
        h.truncated, decide_eq_true_eq, hbytes, List.length_append]
      omega
  · refine ⟨?_, ?_⟩
    · simp only [OutputTail.extend, if_neg hne, if_neg hcap.ne', dif_neg hlong]
      rw [rtake_append_of_le history incoming (by omega), ← h.bytes]
    · simp only [OutputTail.extend, if_neg hne, if_neg hcap.ne', dif_neg hlong, Bool.or_eq_true,
        h.truncated, decide_eq_true_eq, List.length_append, hlen]
      omega

@[simp] theorem capacity_foldl (t : OutputTail) (chunks : List Bytes) :
    (chunks.foldl OutputTail.extend t).capacity = t.capacity := by
  induction chunks generalizing t with
  | nil => rfl
  | cons chunk chunks ih => simp [ih]

/-- After any chunks, the tail keeps their concatenation. -/
theorem keeps_foldl (capacity : Nat) (chunks : List Bytes) :
    (chunks.foldl OutputTail.extend (new capacity)).Keeps chunks.flatten := by
  induction chunks using List.reverseRecOn with
  | nil => exact keeps_new capacity
  | append_singleton chunks chunk ih => simpa using ih.extend chunk

/-- What a tail keeps of a history is determined by its capacity and the history. -/
theorem Keeps.unique {t t' : OutputTail} {history : Bytes} (h : t.Keeps history)
    (h' : t'.Keeps history) (hcapacity : t.capacity = t'.capacity) : t = t' := by
  have hbytes : t.bytes = t'.bytes := by
    rw [h.bytes, h'.bytes, hcapacity]
  have htruncated : t.truncated = t'.truncated := by
    apply Bool.eq_iff_iff.mpr
    rw [h.truncated, h'.truncated, hcapacity]
  cases t
  cases t'
  simp_all

/-- **The tail keeps exactly the last bytes**: whatever chunks it was extended by, its snapshot is
the end of the output, it is truncated when the output is longer than its capacity, and it does not
depend on how the output was cut into chunks. -/
theorem extend_exact (capacity : Nat) (chunks : List Bytes) :
    (chunks.foldl extend (new capacity)).snapshot =
        chunks.flatten.drop (chunks.flatten.length - min capacity chunks.flatten.length) ∧
      ((chunks.foldl extend (new capacity)).isTruncated = true ↔
        capacity < chunks.flatten.length) ∧
      ∀ chunks' : List Bytes, chunks'.flatten = chunks.flatten →
        chunks'.foldl extend (new capacity) = chunks.foldl extend (new capacity) := by
  have hkeeps := keeps_foldl capacity chunks
  have hcapacity : (chunks.foldl extend (new capacity)).capacity = capacity :=
    capacity_foldl (new capacity) chunks
  refine ⟨?_, ?_, ?_⟩
  · rw [snapshot, hkeeps.bytes, hcapacity, List.rtake]
    congr 1
    omega
  · rw [isTruncated, hkeeps.truncated, hcapacity]
  · intro chunks' hflatten
    have hkeeps' := keeps_foldl capacity chunks'
    rw [hflatten] at hkeeps'
    apply hkeeps'.unique hkeeps
    rw [capacity_foldl, capacity_foldl]

/-- Cut in two or in one, the output leaves the same tail. -/
theorem extend_exact_split :
    [ascii "exist", ascii "ing"].foldl extend (new 4) = [ascii "existing"].foldl extend (new 4) :=
  (extend_exact 4 [ascii "existing"]).2.2 [ascii "exist", ascii "ing"] (by decide)

example : ((new 4).extend (ascii "existing")).snapshot = ascii "ting" := by decide

end OutputTail

end AfkCli
