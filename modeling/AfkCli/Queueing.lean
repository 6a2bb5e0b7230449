import AfkCli.LoopLog
import AfkCli.Runner

/-!
# Queued output

Output is queued for a connection as a sequence of records, one for each chunk. What the queue holds
afterwards is the encoding of these records, and the replay of a full tail always fits a new queue.

## Main results

* `enqueueOutput_ok`: queued output is the encoding of its chunks
* `enqueueReplay_fits`: the replay fits an empty queue
-/

namespace AfkCli

/-- The encoding of output records. -/
def outputRecords (chunks : List Bytes) : Bytes :=
  (chunks.map Record.output).flatMap writeRecord

@[simp] theorem outputRecords_nil : outputRecords [] = [] := rfl

theorem outputRecords_append (chunks chunks' : List Bytes) :
    outputRecords (chunks ++ chunks') = outputRecords chunks ++ outputRecords chunks' := by
  simp only [outputRecords, List.map_append, List.flatMap_append]

theorem outputRecords_cons (chunk : Bytes) (chunks : List Bytes) :
    outputRecords (chunk :: chunks) = writeRecord (.output chunk) ++ outputRecords chunks := rfl

theorem length_outputRecords (chunks : List Bytes) :
    (outputRecords chunks).length = chunks.flatten.length + ipcHeaderBytes * chunks.length := by
  induction chunks with
  | nil => rfl
  | cons chunk chunks ih =>
    rw [outputRecords_cons, List.length_append, ih, length_writeRecord, List.flatten_cons,
      List.length_append, List.length_cons]
    simp only [encodedShape]
    ring

/-! ## Chunks -/

section chunks

variable {size : Nat}

theorem flatten_chunks (hsize : 0 < size) {n : Nat} {bytes : Bytes} (hn : bytes.length ≤ n) :
    (chunks size n bytes).flatten = bytes := by
  induction n generalizing bytes with
  | zero =>
    obtain rfl := List.length_eq_zero_iff.mp (Nat.le_zero.mp hn)
    rfl
  | succ n ih =>
    cases bytes with
    | nil => rfl
    | cons byte bytes =>
      rw [chunks, List.flatten_cons, ih, List.take_append_drop]
      · simp only [List.length_drop, List.length_cons] at hn ⊢
        omega
      · simp

theorem length_le_of_mem_chunks {n : Nat} {bytes chunk : Bytes}
    (h : chunk ∈ chunks size n bytes) : chunk.length ≤ size := by
  induction n generalizing bytes with
  | zero => simp [chunks] at h
  | succ n ih =>
    cases bytes with
    | nil => simp [chunks] at h
    | cons byte bytes =>
      rw [chunks, List.mem_cons] at h
      · rcases h with rfl | h
        · exact List.length_take_le _ _
        · exact ih h
      · simp

theorem length_chunks_le (hsize : 0 < size) (n : Nat) (bytes : Bytes) :
    (chunks size n bytes).length ≤ bytes.length / size + 1 := by
  induction n generalizing bytes with
  | zero => simp [chunks]
  | succ n ih =>
    cases bytes with
    | nil => simp [chunks]
    | cons byte bytes =>
      rw [chunks, List.length_cons]
      · rcases Nat.lt_or_ge (byte :: bytes).length size with hlt | hge
        · have hnil : (byte :: bytes).drop size = [] := List.drop_of_length_le (Nat.le_of_lt hlt)
          rw [hnil]
          cases n <;> simp [chunks]
        · have hdiv : (byte :: bytes).length / size = ((byte :: bytes).length - size) / size + 1 :=
            Nat.div_eq_sub_div hsize hge
          have := ih ((byte :: bytes).drop size)
          rw [List.length_drop] at this
          omega
      · simp

end chunks

/-! ## Queueing -/

section queueing

variable {connection connection' : Connection}

theorem encodeRecord_output {chunk : Bytes} (h : chunk.length ≤ maxIpcPayloadBytes) :
    encodeRecord (.output chunk) = .ok (writeRecord (.output chunk)) := by
  have hvalid : (Record.output chunk).Valid := h
  simp only [encodeRecord, encode_valid hvalid]

/-- What queueing output leaves as it was. -/
structure SameConnection (connection connection' : Connection) : Prop where
  stream : connection'.stream = connection.stream
  decoder : connection'.decoder = connection.decoder
  limit : connection'.output.limit = connection.output.limit

theorem SameConnection.refl (connection : Connection) : SameConnection connection connection :=
  ⟨rfl, rfl, rfl⟩

theorem SameConnection.trans {connection'' : Connection} (h : SameConnection connection connection')
    (h' : SameConnection connection' connection'') : SameConnection connection connection'' :=
  ⟨h'.stream.trans h.stream, h'.decoder.trans h.decoder, h'.limit.trans h.limit⟩

theorem enqueueChunks_ok {chunks : List Bytes}
    (hsmall : ∀ chunk ∈ chunks, chunk.length ≤ maxIpcPayloadBytes)
    (h : enqueueChunks connection chunks = .ok connection') :
    SameConnection connection connection' ∧
      connection'.output.bytes = connection.output.bytes ++ outputRecords chunks := by
  induction chunks generalizing connection with
  | nil =>
    obtain rfl : connection = connection' := Except.ok.inj h
    exact ⟨.refl connection, by simp⟩
  | cons chunk chunks ih =>
    have hchunk := hsmall chunk List.mem_cons_self
    simp only [enqueueChunks, encodeRecord_output hchunk, bind, Except.bind] at h
    rcases Nat.lt_or_ge connection.output.limit
      (connection.output.bytes.length + (writeRecord (.output chunk)).length) with hfull | hfits
    · rw [ByteQueue.push_refused hfull] at h
      cases h
    · obtain ⟨htrue, hbytes, hlimit⟩ := ByteQueue.push_fits hfits
      rcases hpush : connection.output.push (writeRecord (.output chunk)) with ⟨output, _ | _⟩
      · rw [hpush] at htrue
        cases htrue
      · rw [hpush] at h hbytes hlimit
        obtain ⟨hsame, hqueued⟩ := ih (fun c hc => hsmall c (List.mem_cons_of_mem _ hc)) h
        have hpushed : SameConnection connection { connection with output } := ⟨rfl, rfl, hlimit⟩
        refine ⟨hpushed.trans hsame, ?_⟩
        rw [hqueued, outputRecords_cons, ← List.append_assoc]
        exact congrArg (· ++ outputRecords chunks) hbytes

theorem enqueueChunks_fits {chunks : List Bytes}
    (hsmall : ∀ chunk ∈ chunks, chunk.length ≤ maxIpcPayloadBytes)
    (hfits : connection.output.bytes.length + (outputRecords chunks).length ≤
      connection.output.limit) : ∃ connection', enqueueChunks connection chunks = .ok connection' := by
  induction chunks generalizing connection with
  | nil => exact ⟨connection, rfl⟩
  | cons chunk chunks ih =>
    have hchunk := hsmall chunk List.mem_cons_self
    rw [outputRecords_cons, List.length_append] at hfits
    have hroom : connection.output.bytes.length + (writeRecord (.output chunk)).length ≤
        connection.output.limit := by omega
    obtain ⟨htrue, hbytes, hlimit⟩ := ByteQueue.push_fits hroom
    rcases hpush : connection.output.push (writeRecord (.output chunk)) with ⟨output, _ | _⟩
    · rw [hpush] at htrue
      cases htrue
    · rw [hpush] at hbytes hlimit
      have hleft : output.bytes.length + (outputRecords chunks).length ≤ output.limit := by
        simp only at hbytes hlimit
        rw [hbytes, hlimit, List.length_append]
        omega
      obtain ⟨connection', h⟩ := @ih { connection with output }
        (fun c hc => hsmall c (List.mem_cons_of_mem _ hc)) hleft
      refine ⟨connection', ?_⟩
      simp only [enqueueChunks, encodeRecord_output hchunk, bind, Except.bind, hpush]
      exact h

theorem chunk_small {output chunk : Bytes}
    (h : chunk ∈ chunks maxIpcPayloadBytes output.length output) :
    chunk.length ≤ maxIpcPayloadBytes := length_le_of_mem_chunks h

/-- **Queued output is the encoding of its chunks.** -/
theorem enqueueOutput_ok {output : Bytes}
    (h : enqueueOutput connection output = .ok connection') :
    SameConnection connection connection' ∧ ∃ pieces : List Bytes,
      (∀ piece ∈ pieces, piece.length ≤ maxIpcPayloadBytes) ∧ pieces.flatten = output ∧
        connection'.output.bytes = connection.output.bytes ++ outputRecords pieces := by
  obtain ⟨hsame, hbytes⟩ := enqueueChunks_ok (fun _ => chunk_small) h
  exact ⟨hsame, _, fun _ => chunk_small,
    flatten_chunks (by decide) (Nat.le_refl _), hbytes⟩

theorem enqueueOutput_fits {output : Bytes}
    (hfits : connection.output.bytes.length + output.length +
      ipcHeaderBytes * (output.length / maxIpcPayloadBytes + 1) ≤ connection.output.limit) :
    ∃ connection', enqueueOutput connection output = .ok connection' := by
  refine enqueueChunks_fits (fun _ => chunk_small) ?_
  rw [length_outputRecords, flatten_chunks (by decide) (Nat.le_refl _)]
  have := Nat.mul_le_mul_left ipcHeaderBytes
    (length_chunks_le (show 0 < maxIpcPayloadBytes by decide) output.length output)
  omega

theorem enqueueReplay_same {tail : OutputTail}
    (h : enqueueReplay connection tail = .ok connection') :
    SameConnection connection connection' := by
  simp only [enqueueReplay, bind, Except.bind] at h
  by_cases htruncated : tail.isTruncated = true
  · rw [if_pos htruncated] at h
    cases hmarker : enqueueOutput connection truncationMarker with
    | error error => simp [hmarker] at h
    | ok marked =>
      simp only [hmarker] at h
      exact (enqueueOutput_ok hmarker).1.trans (enqueueOutput_ok h).1
  · rw [if_neg htruncated] at h
    exact (enqueueOutput_ok h).1

/-- The replay is queued as the encoding of the marker's and the tail's chunks. -/
theorem enqueueReplay_ok {tail : OutputTail} {history : Bytes} (hkeeps : tail.Keeps history)
    (hcapacity : tail.capacity = outputTailBytes)
    (h : enqueueReplay connection tail = .ok connection') :
    SameConnection connection connection' ∧ ∃ pieces : List Bytes,
      (∀ piece ∈ pieces, piece.length ≤ maxIpcPayloadBytes) ∧ pieces.flatten = replay history ∧
        connection'.output.bytes = connection.output.bytes ++ outputRecords pieces := by
  have hsnapshot : tail.snapshot = history.rtake outputTailBytes := hcapacity ▸ hkeeps.bytes
  have htruncated : tail.isTruncated = true ↔ outputTailBytes < history.length :=
    hcapacity ▸ hkeeps.truncated
  simp only [enqueueReplay, bind, Except.bind] at h
  by_cases hlong : outputTailBytes < history.length
  · rw [if_pos (htruncated.mpr hlong)] at h
    cases hmarker : enqueueOutput connection truncationMarker with
    | error error => simp [hmarker] at h
    | ok marked =>
      simp only [hmarker] at h
      obtain ⟨hsame, pieces, hsmall, hflatten, hbytes⟩ := enqueueOutput_ok hmarker
      obtain ⟨hsame', pieces', hsmall', hflatten', hbytes'⟩ := enqueueOutput_ok h
      refine ⟨hsame.trans hsame', pieces ++ pieces', ?_, ?_, ?_⟩
      · intro piece hpiece
        rcases List.mem_append.mp hpiece with hpiece | hpiece
        · exact hsmall piece hpiece
        · exact hsmall' piece hpiece
      · rw [List.flatten_append, hflatten, hflatten', hsnapshot, replay, if_pos hlong]
      · rw [hbytes', hbytes, outputRecords_append, List.append_assoc]
  · rw [if_neg (fun ht => hlong (htruncated.mp ht))] at h
    obtain ⟨hsame, pieces, hsmall, hflatten, hbytes⟩ := enqueueOutput_ok h
    refine ⟨hsame, pieces, hsmall, ?_, hbytes⟩
    rw [hflatten, hsnapshot, replay, if_neg hlong, List.nil_append]

/-- **The replay fits an empty queue.** -/
theorem enqueueReplay_fits {tail : OutputTail} (hcapacity : tail.capacity = outputTailBytes)
    (hempty : connection.output.bytes = [])
    (hlimit : connection.output.limit = maxAttachmentQueueBytes) :
    ∃ connection', enqueueReplay connection tail = .ok connection' := by
  have htail : tail.snapshot.length ≤ outputTailBytes := hcapacity ▸ tail.length_le
  have hmarker : truncationMarker.length = 48 := by decide
  simp only [outputTailBytes] at htail
  have hdiv : tail.snapshot.length / maxIpcPayloadBytes ≤ 4 := by
    simp only [maxIpcPayloadBytes]
    omega
  simp only [enqueueReplay, bind, Except.bind]
  by_cases htruncated : tail.isTruncated = true
  · rw [if_pos htruncated]
    have hroom : connection.output.bytes.length + truncationMarker.length +
        ipcHeaderBytes * (truncationMarker.length / maxIpcPayloadBytes + 1) ≤
          connection.output.limit := by
      rw [hempty, hlimit, hmarker]
      decide
    obtain ⟨marked, hmarked⟩ := enqueueOutput_fits hroom
    obtain ⟨hsame, pieces, -, hflatten, hbytes⟩ := enqueueOutput_ok hmarked
    simp only [hmarked]
    have hlength : marked.output.bytes.length ≤ 48 + 5 * (48 / maxIpcPayloadBytes + 1) := by
      have hpieces := enqueueChunks_ok (fun _ => chunk_small) hmarked
      rw [hpieces.2, hempty, List.nil_append, length_outputRecords,
        flatten_chunks (by decide) (Nat.le_refl _), hmarker]
      have := Nat.mul_le_mul_left ipcHeaderBytes
        (length_chunks_le (show 0 < maxIpcPayloadBytes by decide) 48 truncationMarker)
      rw [hmarker] at this
      simp only [ipcHeaderBytes] at this ⊢
      omega
    refine enqueueOutput_fits ?_
    rw [hsame.limit, hlimit]
    simp only [ipcHeaderBytes, maxAttachmentQueueBytes, maxIpcPayloadBytes] at hlength hdiv ⊢
    omega
  · rw [if_neg htruncated]
    refine enqueueOutput_fits ?_
    rw [hempty, hlimit, List.length_nil]
    simp only [ipcHeaderBytes, maxAttachmentQueueBytes, maxIpcPayloadBytes] at hdiv ⊢
    omega

end queueing

end AfkCli
