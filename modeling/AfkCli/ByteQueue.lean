import AfkCli.Limits

/-!
# The bounded byte queue

Bytes waiting to be written: input for the terminal, output for an attachment. The flush loop is
written over any writer, so it stands with the system calls it makes.

## Main definitions

* `ByteQueue`: a queue with its bound
* `ByteQueue.push`: append bytes if they fit
* `ByteQueue.written`: drop what a write accepted
-/

namespace AfkCli

/-- Bytes in order, at most `limit` of them. -/
structure ByteQueue where
  bytes : Bytes
  limit : Nat
  length_le : bytes.length ≤ limit

namespace ByteQueue

def new (limit : Nat) : ByteQueue := ⟨[], limit, Nat.zero_le _⟩

/-- Append bytes if they fit; otherwise nothing changes and the answer is `false`. -/
def push (q : ByteQueue) (bytes : Bytes) : ByteQueue × Bool :=
  if h : q.limit - q.bytes.length < bytes.length then (q, false)
  else
    ({ q with
        bytes := q.bytes ++ bytes
        length_le := by
          have := q.length_le
          simp only [List.length_append]
          omega },
      true)

/-- Drop the bytes a write accepted. -/
def written (q : ByteQueue) (n : Nat) : ByteQueue :=
  { q with
    bytes := q.bytes.drop n
    length_le := by
      have := q.length_le
      simp only [List.length_drop]
      omega }

def isEmpty (q : ByteQueue) : Bool := q.bytes.isEmpty

@[simp] theorem bytes_new (limit : Nat) : (new limit).bytes = [] := rfl

@[simp] theorem limit_new (limit : Nat) : (new limit).limit = limit := rfl

@[simp] theorem bytes_written (q : ByteQueue) (n : Nat) : (q.written n).bytes = q.bytes.drop n :=
  rfl

@[simp] theorem limit_written (q : ByteQueue) (n : Nat) : (q.written n).limit = q.limit := rfl

theorem push_fits {q : ByteQueue} {bytes : Bytes} (h : q.bytes.length + bytes.length ≤ q.limit) :
    (q.push bytes).2 = true ∧ (q.push bytes).1.bytes = q.bytes ++ bytes ∧
      (q.push bytes).1.limit = q.limit := by
  have : ¬ q.limit - q.bytes.length < bytes.length := by omega
  simp [push, this]

theorem push_limit (q : ByteQueue) (bytes : Bytes) : (q.push bytes).1.limit = q.limit := by
  unfold push
  split_ifs <;> rfl

/-- A push that is refused changes nothing. -/
theorem push_false {q q' : ByteQueue} {bytes : Bytes} (h : q.push bytes = (q', false)) : q' = q := by
  unfold push at h
  split_ifs at h
  · exact (Prod.mk.inj h).1.symm
  · cases h

/-- A push that succeeds appends. -/
theorem push_true {q : ByteQueue} {bytes : Bytes} (h : (q.push bytes).2 = true) :
    (q.push bytes).1.bytes = q.bytes ++ bytes := by
  unfold push at h ⊢
  split_ifs at h ⊢
  rfl

theorem push_refused {q : ByteQueue} {bytes : Bytes}
    (h : q.limit < q.bytes.length + bytes.length) : q.push bytes = (q, false) := by
  have := q.length_le
  have : q.limit - q.bytes.length < bytes.length := by omega
  simp [push, this]

end ByteQueue

end AfkCli
