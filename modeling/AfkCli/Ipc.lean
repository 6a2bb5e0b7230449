import AfkCli.Interaction.Framing
import AfkCli.Limits

/-!
# The IPC codec

Attachments and the runner exchange records over a Unix stream. A record has a five-byte header,
its kind and its payload length, and a payload of at most 64 KiB. The decoder buffers at most one
record.

## Main definitions

* `Record`, `ProcessExit`: the records
* `encode`: a record's bytes
* `Decoder`: the incremental decoder, with its bound; `Decoder.push`, `Decoder.next`
* `Record.Valid`: the records that survive a round trip
* `ipcFormat`: the codec as a record format

## Main results

* `cut_encode`: an encoded valid record is cut off the front of any stream
* `valid_of_cut`: only valid records are cut
* `Decoder.nextAll_eq`: calling `next` until it finds nothing drains the buffer
-/

namespace AfkCli

open Interaction

inductive ProcessExit
  | code (code : UInt8)
  | signal (signal : UInt8)
  deriving DecidableEq, Repr

inductive Record
  | attach (rows columns : UInt16)
  | input (bytes : Bytes)
  | output (bytes : Bytes)
  | resize (rows columns : UInt16)
  | stop
  | exit (status : ProcessExit)
  deriving DecidableEq, Repr

inductive DecodeError
  | bufferLimit
  | payloadTooLarge
  | unknownKind
  | invalidPayload
  deriving DecidableEq, Repr

namespace ProcessExit

/-- The status an attached command returns: `128 + signal` for a signal, saturating. -/
def statusCode : ProcessExit → UInt8
  | code c => c
  | signal s => if 127 < s then 255 else 128 + s

end ProcessExit

/-! ## Encoding -/

def attachKind : UInt8 := 1
def inputKind : UInt8 := 2
def outputKind : UInt8 := 3
def resizeKind : UInt8 := 4
def stopKind : UInt8 := 5
def exitKind : UInt8 := 6

/-- `u16::to_be_bytes`. -/
def be16 (n : UInt16) : Bytes := [(n >>> 8).toUInt8, n.toUInt8]

/-- `u16::from_be_bytes`. -/
def fromBe16 (high low : UInt8) : UInt16 := (high.toUInt16 <<< 8) ||| low.toUInt16

/-- `u32::to_be_bytes`. -/
def be32 (n : Nat) : Bytes :=
  [UInt8.ofNat (n / 2 ^ 24), UInt8.ofNat (n / 2 ^ 16), UInt8.ofNat (n / 2 ^ 8), UInt8.ofNat n]

/-- `u32::from_be_bytes`. -/
def fromBe32 (a b c d : UInt8) : Nat :=
  a.toNat * 2 ^ 24 + b.toNat * 2 ^ 16 + c.toNat * 2 ^ 8 + d.toNat

/-- The kind and the payload length of a record. -/
def encodedShape : Record → UInt8 × Nat
  | .attach .. => (attachKind, 4)
  | .input bytes => (inputKind, bytes.length)
  | .output bytes => (outputKind, bytes.length)
  | .resize .. => (resizeKind, 4)
  | .stop => (stopKind, 0)
  | .exit _ => (exitKind, 2)

def encodedPayload : Record → Bytes
  | .attach rows columns | .resize rows columns => be16 rows ++ be16 columns
  | .input bytes | .output bytes => bytes
  | .stop => []
  | .exit (.code code) => [0, code]
  | .exit (.signal signal) => [1, signal]

/-- The bytes `write_record` writes for a record whose payload is within the limit. -/
def writeRecord (record : Record) : Bytes :=
  (encodedShape record).1 :: be32 (encodedShape record).2 ++ encodedPayload record

/-- A record's bytes; a payload over the limit is refused. -/
def encode (record : Record) : Option Bytes :=
  if maxIpcPayloadBytes < (encodedShape record).2 then none else some (writeRecord record)

/-! ## Decoding -/

def decodeDimensions : Bytes → Except DecodeError (UInt16 × UInt16)
  | [rowHigh, rowLow, columnHigh, columnLow] =>
    let rows := fromBe16 rowHigh rowLow
    let columns := fromBe16 columnHigh columnLow
    if (1 ≤ rows ∧ rows ≤ maxTerminalDimension) ∧ (1 ≤ columns ∧ columns ≤ maxTerminalDimension) then
      .ok (rows, columns)
    else .error .invalidPayload
  | _ => .error .invalidPayload

def decodeExit : Bytes → Except DecodeError ProcessExit
  | [reason, value] =>
    if reason = 0 then .ok (.code value)
    else if reason = 1 ∧ 1 ≤ value ∧ value ≤ 127 then .ok (.signal value)
    else .error .invalidPayload
  | _ => .error .invalidPayload

def decodePayload (kind : UInt8) (payload : Bytes) : Except DecodeError Record :=
  if kind = attachKind then
    (decodeDimensions payload).map fun (rows, columns) => .attach rows columns
  else if kind = inputKind then .ok (.input payload)
  else if kind = outputKind then .ok (.output payload)
  else if kind = resizeKind then
    (decodeDimensions payload).map fun (rows, columns) => .resize rows columns
  else if kind = stopKind then if payload = [] then .ok .stop else .error .invalidPayload
  else if kind = exitKind then (decodeExit payload).map .exit
  else .error .unknownKind

/-- The incremental decoder: the bytes of at most one record. -/
structure Decoder where
  buffer : Bytes
  length_le : buffer.length ≤ maxIpcRecordBytes

namespace Decoder

def empty : Decoder := ⟨[], Nat.zero_le _⟩

def remainingCapacity (d : Decoder) : Nat := maxIpcRecordBytes - d.buffer.length

def push (d : Decoder) (bytes : Bytes) : Except DecodeError Decoder :=
  if h : d.remainingCapacity < bytes.length then .error .bufferLimit
  else .ok
    { buffer := d.buffer ++ bytes
      length_le := by
        have := d.length_le
        simp only [remainingCapacity] at h
        simp only [List.length_append]
        omega }

/-- Drop a decoded record from the buffer. -/
def drop (d : Decoder) (n : Nat) : Decoder where
  buffer := d.buffer.drop n
  length_le := by
    have := d.length_le
    simp only [List.length_drop]
    omega

/-- The next complete record, if the buffer holds one. -/
def next (d : Decoder) : Except DecodeError (Option Record × Decoder) :=
  match d.buffer with
  | kind :: a :: b :: c :: e :: rest =>
    let payloadLength := fromBe32 a b c e
    if maxIpcPayloadBytes < payloadLength then .error .payloadTooLarge
    else
      let recordLength := ipcHeaderBytes + payloadLength
      if d.buffer.length < recordLength then .ok (none, d)
      else
        match decodePayload kind (rest.take payloadLength) with
        | .error error => .error error
        | .ok record => .ok (some record, d.drop recordLength)
  | _ => .ok (none, d)

/-- `next` until it finds nothing. Every record has a header, so the buffer's length bounds the
rounds. -/
def nextAll : Nat → Decoder → Except DecodeError (List Record × Decoder)
  | 0, d => .ok ([], d)
  | n + 1, d =>
    match d.next with
    | .error error => .error error
    | .ok (none, d) => .ok ([], d)
    | .ok (some record, d) =>
      match nextAll n d with
      | .error error => .error error
      | .ok (records, d) => .ok (record :: records, d)

/-- The records complete in the buffer. -/
def drain (d : Decoder) : Except DecodeError (List Record × Decoder) := nextAll d.buffer.length d

end Decoder

/-! ## The codec as a record format -/

/-- The record at the front of a buffer, as `next` finds it. -/
def ipcCut (buffer : Bytes) : Cut Record DecodeError :=
  match buffer with
  | kind :: a :: b :: c :: e :: rest =>
    if maxIpcPayloadBytes < fromBe32 a b c e then .fail .payloadTooLarge
    else if rest.length < fromBe32 a b c e then .more
    else
      match decodePayload kind (rest.take (fromBe32 a b c e)) with
      | .error error => .fail error
      | .ok record => .done record (ipcHeaderBytes + fromBe32 a b c e)
  | _ => .more

/-- The IPC records as a self-delimiting format. -/
def ipcFormat : Format UInt8 Record DecodeError where
  cut := ipcCut
  done_pos {b r n} h := by
    unfold ipcCut at h
    split at h
    · split_ifs at h
      split at h
      · simp at h
      · simp only [Cut.done.injEq, ipcHeaderBytes] at h
        omega
    · simp at h
  done_le {b r n} h := by
    unfold ipcCut at h
    split at h
    · split_ifs at h with h₁ h₂
      split at h
      · simp at h
      · simp only [Cut.done.injEq, ipcHeaderBytes] at h
        simp only [List.length_cons]
        omega
    · simp at h
  done_append {b r n} c h := by
    unfold ipcCut at h
    split at h
    · split_ifs at h with h₁ h₂
      simp only [List.cons_append, ipcCut, if_neg h₁, List.length_append]
      rw [if_neg (by omega), List.take_append_of_le_length (by omega)]
      exact h
    · simp at h
  fail_append {b e} c h := by
    unfold ipcCut at h
    split at h
    · split_ifs at h with h₁ h₂
      · simpa [ipcCut, h₁] using h
      · simp only [List.cons_append, ipcCut, if_neg h₁, List.length_append]
        rw [if_neg (by omega), List.take_append_of_le_length (by omega)]
        exact h
    · simp at h

theorem ipcFormat_cut (buffer : Bytes) : ipcFormat.cut buffer = ipcCut buffer := rfl

/-- The records that survive a round trip. -/
def Record.Valid : Record → Prop
  | .attach rows columns | .resize rows columns =>
    (1 ≤ rows ∧ rows ≤ maxTerminalDimension) ∧ (1 ≤ columns ∧ columns ≤ maxTerminalDimension)
  | .input bytes | .output bytes => bytes.length ≤ maxIpcPayloadBytes
  | .stop => True
  | .exit (.code _) => True
  | .exit (.signal signal) => 1 ≤ signal ∧ signal ≤ 127

theorem toNat_fromBe16 (high low : UInt8) :
    (fromBe16 high low).toNat = high.toNat * 256 + low.toNat := by
  have hhigh := high.toNat_lt
  have hlow := low.toNat_lt
  have hshift : (8 : UInt16).toNat % 16 = 8 := rfl
  simp only [fromBe16, UInt16.toNat_or, UInt16.toNat_shiftLeft, UInt8.toNat_toUInt16]
  rw [hshift, Nat.mod_eq_of_lt (by rw [Nat.shiftLeft_eq]; omega),
    ← Nat.shiftLeft_add_eq_or_of_lt (by omega), Nat.shiftLeft_eq]

theorem fromBe16_be16 (n : UInt16) : fromBe16 (n >>> 8).toUInt8 n.toUInt8 = n := by
  apply UInt16.toNat_inj.mp
  have hn := n.toNat_lt
  have hshift : (8 : UInt16).toNat % 16 = 8 := rfl
  rw [toNat_fromBe16]
  simp only [UInt16.toNat_toUInt8, UInt16.toNat_shiftRight]
  rw [hshift, Nat.shiftRight_eq_div_pow]
  omega

theorem fromBe32_be32 {n : Nat} (h : n < 2 ^ 32) :
    fromBe32 (UInt8.ofNat (n / 2 ^ 24)) (UInt8.ofNat (n / 2 ^ 16)) (UInt8.ofNat (n / 2 ^ 8))
      (UInt8.ofNat n) = n := by
  simp only [fromBe32, UInt8.toNat_ofNat']
  omega

theorem length_encodedPayload (record : Record) :
    (encodedPayload record).length = (encodedShape record).2 := by
  rcases record with _ | _ | _ | _ | _ | (_ | _) <;> simp [encodedPayload, encodedShape, be16]

theorem length_writeRecord (record : Record) :
    (writeRecord record).length = ipcHeaderBytes + (encodedShape record).2 := by
  simp only [writeRecord, be32, List.cons_append, List.nil_append, List.length_cons,
    length_encodedPayload, ipcHeaderBytes]
  omega

theorem Record.Valid.shape_le {record : Record} (h : record.Valid) :
    (encodedShape record).2 ≤ maxIpcPayloadBytes := by
  rcases record with _ | _ | _ | _ | _ | (_ | _) <;>
    first | exact h | simp [encodedShape, maxIpcPayloadBytes]

theorem encode_valid {record : Record} (h : record.Valid) :
    encode record = some (writeRecord record) := by
  rw [encode, if_neg (Nat.not_lt.mpr h.shape_le)]

theorem decodePayload_encodedPayload {record : Record} (h : record.Valid) :
    decodePayload (encodedShape record).1 (encodedPayload record) = .ok record := by
  rcases record with ⟨rows, columns⟩ | _ | _ | ⟨rows, columns⟩ | _ | (code | signal) <;>
    simp_all [decodePayload, encodedShape, encodedPayload, attachKind, inputKind, outputKind,
      resizeKind, stopKind, exitKind, decodeDimensions, decodeExit, be16, fromBe16_be16,
      Record.Valid, Except.map]

/-- **An encoded valid record is cut off the front of any stream**, with its length. -/
theorem cut_encode {record : Record} (h : record.Valid) (c : Bytes) :
    ipcFormat.cut (writeRecord record ++ c) = .done record (writeRecord record).length := by
  have hle := h.shape_le
  have hlt : (encodedShape record).2 < 2 ^ 32 := by
    simp only [maxIpcPayloadBytes] at hle
    omega
  have hlen := length_encodedPayload record
  rw [ipcFormat_cut]
  simp only [writeRecord, be32, List.cons_append, List.nil_append, ipcCut, fromBe32_be32 hlt]
  rw [if_neg (by omega), if_neg (by simp only [List.length_append]; omega), ← hlen,
    List.take_left, decodePayload_encodedPayload h]
  simp only [List.length_cons, ipcHeaderBytes, Cut.done.injEq, true_and]
  omega

theorem decodeDimensions_ok {payload : Bytes} {rows columns : UInt16}
    (h : decodeDimensions payload = .ok (rows, columns)) :
    (1 ≤ rows ∧ rows ≤ maxTerminalDimension) ∧
      (1 ≤ columns ∧ columns ≤ maxTerminalDimension) := by
  unfold decodeDimensions at h
  split at h
  · dsimp only at h
    split_ifs at h with hrange
    obtain ⟨rfl, rfl⟩ : _ = rows ∧ _ = columns := by simpa using h
    exact hrange
  · simp at h

/-- Only valid records are decoded. -/
theorem valid_of_decodePayload {kind : UInt8} {payload : Bytes} {record : Record}
    (hlen : payload.length ≤ maxIpcPayloadBytes) (h : decodePayload kind payload = .ok record) :
    record.Valid := by
  unfold decodePayload at h
  split_ifs at h
  · rcases hdim : decodeDimensions payload with e | ⟨rows, columns⟩
    · simp [hdim, Except.map] at h
    · obtain rfl : Record.attach rows columns = record := by simpa [hdim, Except.map] using h
      exact decodeDimensions_ok hdim
  · obtain rfl : Record.input payload = record := by simpa using h
    exact hlen
  · obtain rfl : Record.output payload = record := by simpa using h
    exact hlen
  · rcases hdim : decodeDimensions payload with e | ⟨rows, columns⟩
    · simp [hdim, Except.map] at h
    · obtain rfl : Record.resize rows columns = record := by simpa [hdim, Except.map] using h
      exact decodeDimensions_ok hdim
  · obtain rfl : Record.stop = record := by simpa using h
    trivial
  · rcases hexit : decodeExit payload with e | (code | signal)
    · simp [hexit, Except.map] at h
    · obtain rfl : Record.exit (.code code) = record := by simpa [hexit, Except.map] using h
      trivial
    · obtain rfl : Record.exit (.signal signal) = record := by
        simpa [hexit, Except.map] using h
      unfold decodeExit at hexit
      split at hexit
      · split_ifs at hexit with hzero hone
        · simp at hexit
        · obtain rfl : _ = signal := by simpa using hexit
          exact hone.2
      · simp at hexit

/-- Only valid records are cut. -/
theorem valid_of_cut {buffer : Bytes} {record : Record} {n : Nat}
    (h : ipcFormat.cut buffer = .done record n) : record.Valid := by
  rw [ipcFormat_cut] at h
  unfold ipcCut at h
  split at h
  · split_ifs at h with hbig hshort
    split at h
    · simp at h
    · next hdec =>
      obtain ⟨rfl, -⟩ : _ = record ∧ _ := by simpa using h
      exact valid_of_decodePayload (by simp only [List.length_take]; omega) hdec
  · simp at h

theorem valid_of_drain {buffer : Bytes} :
    ∀ record ∈ (ipcFormat.drain buffer).1, record.Valid := by
  induction hb : buffer.length using Nat.strongRecOn generalizing buffer with
  | _ n ih =>
    cases hcut : ipcFormat.cut buffer with
    | more => simp [Format.drain_more hcut]
    | fail e => simp [Format.drain_fail hcut]
    | done r m =>
      have hpos := ipcFormat.done_pos hcut
      have hle := ipcFormat.done_le hcut
      rw [Format.drain_done hcut]
      intro record hmem
      rcases List.mem_cons.mp hmem with rfl | hmem
      · exact valid_of_cut hcut
      · exact ih (buffer.drop m).length (by simp only [List.length_drop]; omega) rfl record hmem

/-! ## The decoder -/

namespace Decoder

@[ext] theorem ext {d d' : Decoder} (h : d.buffer = d'.buffer) : d = d' := by
  cases d
  cases d'
  simp_all

@[simp] theorem buffer_empty : empty.buffer = [] := rfl

@[simp] theorem buffer_drop (d : Decoder) (n : Nat) : (d.drop n).buffer = d.buffer.drop n := rfl

theorem next_header {d : Decoder} {kind a b c e : UInt8} {rest : Bytes}
    (h : d.buffer = kind :: a :: b :: c :: e :: rest) :
    d.next =
      if maxIpcPayloadBytes < fromBe32 a b c e then .error .payloadTooLarge
      else if d.buffer.length < ipcHeaderBytes + fromBe32 a b c e then .ok (none, d)
      else
        match decodePayload kind (rest.take (fromBe32 a b c e)) with
        | .error error => .error error
        | .ok record => .ok (some record, d.drop (ipcHeaderBytes + fromBe32 a b c e)) := by
  unfold next
  split
  · next h' =>
    rw [h] at h'
    simp only [List.cons.injEq] at h'
    obtain ⟨rfl, rfl, rfl, rfl, rfl, rfl⟩ := h'
    rfl
  · next h' => exact absurd h (h' _ _ _ _ _ _)

theorem next_short {d : Decoder} (h : d.buffer.length < 5) : d.next = .ok (none, d) := by
  unfold next
  split
  · next h' =>
    simp only [h', List.length_cons] at h
    omega
  · rfl

theorem ipcCut_short {buffer : Bytes} (h : buffer.length < 5) : ipcCut buffer = .more := by
  unfold ipcCut
  split
  · simp only [List.length_cons] at h
    omega
  · rfl

/-- A buffer holds a header, or less. -/
theorem header_or_short (buffer : Bytes) :
    (∃ kind a b c e rest, buffer = kind :: a :: b :: c :: e :: rest) ∨ buffer.length < 5 := by
  match buffer with
  | [] | [_] | [_, _] | [_, _, _] | [_, _, _, _] => exact .inr (by simp)
  | kind :: a :: b :: c :: e :: rest => exact .inl ⟨kind, a, b, c, e, rest, rfl⟩

/-- `next` cuts the record at the front of the buffer. -/
theorem next_eq (d : Decoder) : d.next = match ipcCut d.buffer with
    | .more => .ok (none, d)
    | .fail error => .error error
    | .done record n => .ok (some record, d.drop n) := by
  rcases header_or_short d.buffer with ⟨kind, a, b, c, e, rest, hbuffer⟩ | hshort
  · rw [next_header hbuffer, hbuffer, ipcCut]
    have hlen : (kind :: a :: b :: c :: e :: rest).length = rest.length + 5 := by simp
    by_cases hbig : maxIpcPayloadBytes < fromBe32 a b c e
    · rw [if_pos hbig, if_pos hbig]
    · by_cases hmore : rest.length < fromBe32 a b c e
      · rw [if_neg hbig, if_neg hbig, if_pos hmore, if_pos (by simp only [ipcHeaderBytes]; omega)]
      · rw [if_neg hbig, if_neg hbig, if_neg hmore, if_neg (by simp only [ipcHeaderBytes]; omega)]
        cases decodePayload kind (rest.take (fromBe32 a b c e)) <;> rfl
  · rw [next_short hshort, ipcCut_short hshort]

@[simp] theorem drop_zero (d : Decoder) : d.drop 0 = d := rfl

theorem valid_of_next {d d' : Decoder} {record : Record} (h : d.next = .ok (some record, d')) :
    record.Valid := by
  rw [next_eq] at h
  cases hcut : ipcCut d.buffer with
  | more => simp [hcut] at h
  | fail error => simp [hcut] at h
  | done record' n =>
    simp only [hcut, Except.ok.injEq, Prod.mk.injEq, Option.some.injEq] at h
    rw [← h.1]
    exact valid_of_cut hcut

theorem nextAll_eq (d : Decoder) {n : Nat} (hn : d.buffer.length ≤ n) :
    nextAll n d = match ipcFormat.drain d.buffer with
      | (records, .ok rest) =>
        .ok (records, d.drop (d.buffer.length - rest.length))
      | (_, .error error) => .error error := by
  induction n generalizing d with
  | zero =>
    have hnil : d.buffer = [] := List.length_eq_zero_iff.mp (by omega)
    have hcut : ipcFormat.cut d.buffer = .more := by rw [hnil]; rfl
    simp only [Format.drain_more hcut, nextAll, Nat.sub_self, drop_zero]
  | succ n ih =>
    rw [nextAll, next_eq, ← ipcFormat_cut]
    cases hcut : ipcFormat.cut d.buffer with
    | more =>
      simp only [Format.drain_more hcut, Nat.sub_self, drop_zero]
    | fail e => rw [Format.drain_fail hcut]
    | done r m =>
      have hpos := ipcFormat.done_pos hcut
      have hle := ipcFormat.done_le hcut
      rw [Format.drain_done hcut]
      simp only
      rw [ih (d.drop m) (by simp only [buffer_drop, List.length_drop]; omega)]
      simp only [buffer_drop]
      rcases hdrain : ipcFormat.drain (d.buffer.drop m) with ⟨rs, e | rest⟩
      · rfl
      · have hsuffix : rest <:+ d.buffer.drop m := (Format.drain_rest (by rw [hdrain])).2
        have hrest : rest.length ≤ d.buffer.length - m := by
          simpa [List.length_drop] using hsuffix.length_le
        simp only [Except.ok.injEq, Prod.mk.injEq, true_and]
        ext1
        simp only [buffer_drop, List.drop_drop, List.length_drop]
        congr 1
        omega

/-- **Calling `next` until it finds nothing drains the buffer.** -/
theorem drain_ok {d d' : Decoder} {records : List Record} :
    d.drain = .ok (records, d') ↔ ipcFormat.drain d.buffer = (records, .ok d'.buffer) := by
  rw [drain, nextAll_eq d (Nat.le_refl _)]
  rcases hdrain : ipcFormat.drain d.buffer with ⟨rs, e | rest⟩
  · simp
  · have hsuffix : rest <:+ d.buffer := (Format.drain_rest (by rw [hdrain])).2
    have hdrop : (d.drop (d.buffer.length - rest.length)).buffer = rest :=
      (List.suffix_iff_eq_drop.mp hsuffix).symm
    simp only [Except.ok.injEq, Prod.mk.injEq, Decoder.ext_iff, hdrop]

theorem push_ok {d d' : Decoder} {bytes : Bytes} (h : d.push bytes = .ok d') :
    d'.buffer = d.buffer ++ bytes := by
  unfold push at h
  split_ifs at h
  obtain rfl : _ = d' := by simpa using h
  rfl

theorem push_fits {d : Decoder} {bytes : Bytes} (h : bytes.length ≤ d.remainingCapacity) :
    ∃ d', d.push bytes = .ok d' ∧ d'.buffer = d.buffer ++ bytes := by
  unfold push
  rw [dif_neg (Nat.not_lt.mpr h)]
  exact ⟨_, rfl, rfl⟩

/-- A drained decoder always has room: what it holds is less than a record. -/
theorem remainingCapacity_pos {d : Decoder} (h : ipcFormat.cut d.buffer = .more) :
    0 < d.remainingCapacity := by
  rw [ipcFormat_cut] at h
  simp only [remainingCapacity, maxIpcRecordBytes, ipcHeaderBytes]
  rcases header_or_short d.buffer with ⟨kind, a, b, c, e, rest, hbuffer⟩ | hshort
  · rw [hbuffer, ipcCut] at h
    split_ifs at h with hbig hmore
    · simp only [hbuffer, List.length_cons]
      omega
    · split at h <;> simp at h
  · omega

end Decoder

end AfkCli
