import AfkCli.Ipc

/-!
# The codec

Both sides of a connection read it in pieces: a read takes at most what the decoder has room for,
and at most 16 KiB, and `next` is called until it finds nothing. Whatever the pieces, what is
decoded is determined by the stream, and encoding it again gives the stream back.

## Main definitions

* `Decoder.nexts`: the records `next` yields, and how it ends
* `Decoder.readPieces`: a sequence of reads
* `Decoder.Fits`: the pieces that the reads of a connection can take

## Main results

* `codec_bijection`: the codec is exact and does not depend on the pieces
-/

namespace AfkCli

open Interaction

/-! ## Canonical encodings -/

theorem be16_fromBe16 (high low : UInt8) : be16 (fromBe16 high low) = [high, low] := by
  have hnat := toNat_fromBe16 high low
  have hh := high.toNat_lt
  have hl := low.toNat_lt
  simp only [be16, List.cons.injEq, and_true]
  constructor
  · apply UInt8.toNat.inj
    simp only [UInt16.toNat_toUInt8, UInt16.toNat_shiftRight, hnat]
    simp [Nat.shiftRight_eq_div_pow]
    omega
  · apply UInt8.toNat.inj
    simp only [UInt16.toNat_toUInt8, hnat]
    omega

theorem be32_fromBe32 (a b c d : UInt8) : be32 (fromBe32 a b c d) = [a, b, c, d] := by
  have ha := a.toNat_lt
  have hb := b.toNat_lt
  have hc := c.toNat_lt
  have hd := d.toNat_lt
  simp only [be32, fromBe32, List.cons.injEq, and_true]
  refine ⟨?_, ?_, ?_, ?_⟩ <;> apply UInt8.toNat.inj <;> rw [UInt8.toNat_ofNat'] <;> omega

/-- Dimensions have one encoding. -/
theorem decodeDimensions_be16 {payload : Bytes} {rows columns : UInt16}
    (h : decodeDimensions payload = .ok (rows, columns)) :
    be16 rows ++ be16 columns = payload := by
  unfold decodeDimensions at h
  split at h
  · dsimp only at h
    split_ifs at h
    obtain ⟨rfl, rfl⟩ := Prod.mk.inj (Except.ok.inj h)
    rw [be16_fromBe16, be16_fromBe16]
    rfl
  · cases h

theorem decodeExit_ok {payload : Bytes} {exit : ProcessExit} (h : decodeExit payload = .ok exit) :
    encodedPayload (.exit exit) = payload := by
  unfold decodeExit at h
  split at h
  · split_ifs at h with hcode hsignal
    · obtain rfl := Except.ok.inj h
      rw [hcode]
      rfl
    · obtain rfl := Except.ok.inj h
      rw [hsignal.1]
      rfl
  · cases h

/-- A payload is the encoding of the record it decodes to. -/
theorem encodedPayload_decodePayload {kind : UInt8} {payload : Bytes} {record : Record}
    (h : decodePayload kind payload = .ok record) :
    (encodedShape record).1 = kind ∧ encodedPayload record = payload := by
  unfold decodePayload at h
  split_ifs at h with h₁ h₂ h₃ h₄ h₅ h₆ h₇
  · cases hd : decodeDimensions payload with
    | error error => simp [hd, Except.map] at h
    | ok dimensions =>
      obtain rfl : _ = record := by simpa [hd, Except.map] using h
      exact ⟨h₁.symm, decodeDimensions_be16 hd⟩
  · obtain rfl := Except.ok.inj h
    exact ⟨h₂.symm, rfl⟩
  · obtain rfl := Except.ok.inj h
    exact ⟨h₃.symm, rfl⟩
  · cases hd : decodeDimensions payload with
    | error error => simp [hd, Except.map] at h
    | ok dimensions =>
      obtain rfl : _ = record := by simpa [hd, Except.map] using h
      exact ⟨h₄.symm, decodeDimensions_be16 hd⟩
  · obtain rfl := Except.ok.inj h
    exact ⟨h₅.symm, h₆.symm⟩
  · cases hd : decodeExit payload with
    | error error => simp [hd, Except.map] at h
    | ok exit =>
      obtain rfl : _ = record := by simpa [hd, Except.map] using h
      exact ⟨h₇.symm, decodeExit_ok hd⟩

/-- A decoded payload is encoded with the header it came with. -/
theorem writeRecord_payload {kind a b c e : UInt8} {rest : Bytes} {record : Record} {len : Nat}
    (hlen : fromBe32 a b c e = len) (hshort : ¬ rest.length < len)
    (hdecode : decodePayload kind (rest.take len) = .ok record) :
    writeRecord record = (kind :: a :: b :: c :: e :: rest).take (ipcHeaderBytes + len) := by
  obtain ⟨hkind, hpayload⟩ := encodedPayload_decodePayload hdecode
  have hlength : (encodedShape record).2 = len := by
    rw [← length_encodedPayload, hpayload, List.length_take]
    omega
  rw [writeRecord, hkind, hlength, ← hlen, be32_fromBe32, hpayload, hlen, ipcHeaderBytes,
    Nat.add_comm]
  rfl

/-- **A record that is cut off is the encoding it was cut from.** -/
theorem writeRecord_cut {buffer : Bytes} {record : Record} {n : Nat}
    (h : ipcFormat.cut buffer = .done record n) : writeRecord record = buffer.take n := by
  rw [ipcFormat_cut] at h
  unfold ipcCut at h
  split at h
  · rename_i kind a b c e rest
    generalize hlen : fromBe32 a b c e = len at h
    split_ifs at h with hbig hshort
    split at h
    · cases h
    · rename_i record' hdecode
      have hwrite := writeRecord_payload hlen hshort hdecode
      injection h with hrecord hn
      rw [← hrecord, ← hn, hwrite]
  · cases h

/-! ## Reads -/

namespace Decoder

/-- The records `next` yields, and the error or the decoder it ends with. -/
def nexts : Nat → Decoder → List Record × Except DecodeError Decoder
  | 0, d => ([], .ok d)
  | n + 1, d =>
    match d.next with
    | .error error => ([], .error error)
    | .ok (none, d) => ([], .ok d)
    | .ok (some record, d) => (record :: (nexts n d).1, (nexts n d).2)

/-- One read of a piece, and `next` until it finds nothing. -/
def readPiece (d : Decoder) (piece : Bytes) : List Record × Except DecodeError Decoder :=
  match d.push piece with
  | .error error => ([], .error error)
  | .ok d => nexts d.buffer.length d

/-- Reads of the pieces, up to the first error. -/
def readPieces (d : Decoder) : List Bytes → List Record × Except DecodeError Decoder
  | [] => ([], .ok d)
  | piece :: pieces =>
    match d.readPiece piece with
    | (records, .error error) => (records, .error error)
    | (records, .ok d) => (records ++ (readPieces d pieces).1, (readPieces d pieces).2)

/-- A read takes at least a byte, and at most what the decoder has room for and 16 KiB. -/
def Fits (d : Decoder) : List Bytes → Prop
  | [] => True
  | piece :: pieces =>
    (piece ≠ [] ∧ piece.length ≤ min d.remainingCapacity ioChunkBytes) ∧
      ∀ d', (d.readPiece piece).2 = .ok d' → Fits d' pieces

theorem nexts_eq (d : Decoder) {n : Nat} (hn : d.buffer.length ≤ n) :
    (nexts n d).1 = (ipcFormat.drain d.buffer).1 ∧
      (nexts n d).2.map Decoder.buffer = (ipcFormat.drain d.buffer).2 := by
  induction n generalizing d with
  | zero =>
    have hnil : d.buffer = [] := List.length_eq_zero_iff.mp (by omega)
    have hcut : ipcFormat.cut d.buffer = .more := by rw [hnil]; rfl
    rw [Format.drain_more hcut]
    exact ⟨rfl, rfl⟩
  | succ n ih =>
    rw [nexts, next_eq, ← ipcFormat_cut]
    cases hcut : ipcFormat.cut d.buffer with
    | more =>
      rw [Format.drain_more hcut]
      exact ⟨rfl, rfl⟩
    | fail error =>
      rw [Format.drain_fail hcut]
      exact ⟨rfl, rfl⟩
    | done record m =>
      have hpos := ipcFormat.done_pos hcut
      have hle := ipcFormat.done_le hcut
      rw [Format.drain_done hcut]
      obtain ⟨hrecords, hend⟩ :=
        ih (d.drop m) (by simp only [buffer_drop, List.length_drop]; omega)
      exact ⟨congrArg (record :: ·) hrecords, hend⟩

/-- A piece that fits is fed to the format. -/
theorem readPiece_eq {d : Decoder} {piece : Bytes} (h : piece.length ≤ d.remainingCapacity) :
    (d.readPiece piece).1 = (ipcFormat.feed (.ok d.buffer) piece).1 ∧
      (d.readPiece piece).2.map Decoder.buffer = (ipcFormat.feed (.ok d.buffer) piece).2 := by
  obtain ⟨pushed, hpush, hbuffer⟩ := push_fits h
  simp only [readPiece, hpush, Format.feed, ← hbuffer]
  exact nexts_eq pushed (Nat.le_refl _)

/-- Pieces that fit are read as their concatenation. -/
theorem readPieces_eq {d : Decoder} {pieces : List Bytes} (hfits : d.Fits pieces)
    (hd : ipcFormat.cut d.buffer = .more) :
    (d.readPieces pieces).1 = (ipcFormat.drain (d.buffer ++ pieces.flatten)).1 ∧
      (d.readPieces pieces).2.map Decoder.buffer =
        (ipcFormat.drain (d.buffer ++ pieces.flatten)).2 := by
  have hall : (d.readPieces pieces).1 = (ipcFormat.feedAll (.ok d.buffer) pieces).1 ∧
      (d.readPieces pieces).2.map Decoder.buffer =
        (ipcFormat.feedAll (.ok d.buffer) pieces).2 := by
    clear hd
    induction pieces generalizing d with
    | nil => exact ⟨rfl, rfl⟩
    | cons piece pieces ih =>
      obtain ⟨⟨-, hpiece⟩, hrest⟩ := hfits
      obtain ⟨hrecords, hend⟩ := readPiece_eq (Nat.le_trans hpiece (Nat.min_le_left _ _))
      simp only [readPieces, Format.feedAll, ← hrecords, ← hend]
      rcases hread : d.readPiece piece with ⟨records, error | d'⟩
      · rw [Except.map, Format.feedAll_error]
        exact ⟨(List.append_nil _).symm, rfl⟩
      · obtain ⟨hmore, hlast⟩ := ih (hrest d' (by rw [hread]))
        exact ⟨congrArg (records ++ ·) hmore, hlast⟩
  rwa [Format.feedAll_eq (Format.drain_more hd)] at hall

end Decoder

theorem cut_nil : ipcFormat.cut [] = .more := rfl

/-- What the reads of a stream yield. -/
theorem readPieces_empty {pieces : List Bytes} (hfits : Decoder.empty.Fits pieces) :
    (Decoder.empty.readPieces pieces).1 = (ipcFormat.drain pieces.flatten).1 ∧
      (Decoder.empty.readPieces pieces).2.map Decoder.buffer = (ipcFormat.drain pieces.flatten).2 :=
  Decoder.readPieces_eq hfits cut_nil

/-- A decoder that has read what it could has room for more. -/
theorem readPieces_room {pieces : List Bytes} (hfits : Decoder.empty.Fits pieces) {d : Decoder}
    (h : (Decoder.empty.readPieces pieces).2 = .ok d) : 0 < d.remainingCapacity := by
  have hdrain := (readPieces_empty hfits).2
  rw [h] at hdrain
  exact Decoder.remainingCapacity_pos (Format.drain_rest hdrain.symm).1

theorem decodePayload_ne_bufferLimit (kind : UInt8) (payload : Bytes) :
    decodePayload kind payload ≠ .error .bufferLimit := by
  have hdimensions : decodeDimensions payload ≠ .error .bufferLimit := by
    unfold decodeDimensions
    split
    · dsimp only
      split_ifs <;> simp
    · simp
  have hexit : decodeExit payload ≠ .error .bufferLimit := by
    unfold decodeExit
    split
    · split_ifs <;> simp
    · simp
  unfold decodePayload
  split_ifs
  · cases hd : decodeDimensions payload <;> simp_all [Except.map]
  · simp
  · simp
  · cases hd : decodeDimensions payload <;> simp_all [Except.map]
  · simp
  · simp
  · cases hd : decodeExit payload <;> simp_all [Except.map]
  · simp

theorem cut_ne_bufferLimit (b : Bytes) : ipcFormat.cut b ≠ .fail .bufferLimit := by
  rw [ipcFormat_cut]
  unfold ipcCut
  split
  · rename_i kind a b c e rest
    generalize fromBe32 a b c e = len
    split_ifs
    · simp
    · simp
    · split
      · rename_i error hdecode
        rintro ⟨⟩
        exact decodePayload_ne_bufferLimit _ _ hdecode
      · simp
  · simp

/-- Cutting never exceeds the buffer. -/
theorem drain_ne_bufferLimit (b : Bytes) : (ipcFormat.drain b).2 ≠ .error .bufferLimit := by
  induction hb : b.length using Nat.strongRecOn generalizing b with
  | _ n ih =>
    cases hcut : ipcFormat.cut b with
    | more => simp [Format.drain_more hcut]
    | fail error =>
      rw [Format.drain_fail hcut]
      rintro ⟨⟩
      exact cut_ne_bufferLimit b hcut
    | done record m =>
      have hpos := ipcFormat.done_pos hcut
      have hle := ipcFormat.done_le hcut
      rw [Format.drain_done hcut]
      exact ih (b.drop m).length (by simp only [List.length_drop]; omega) (b.drop m) rfl

/-! ## The codec -/

/-- The encodings of records. -/
def EncodesTo (records : List Record) (encodings : List Bytes) : Prop :=
  records.map encode = encodings.map some

theorem encodesTo_writeRecord {records : List Record} (h : ∀ record ∈ records, record.Valid) :
    EncodesTo records (records.map writeRecord) := by
  rw [EncodesTo, List.map_map]
  exact List.map_congr_left fun record hrecord => encode_valid (h record hrecord)

theorem EncodesTo.eq {records : List Record} {encodings : List Bytes}
    (h : EncodesTo records encodings) : encodings = records.map writeRecord := by
  induction records generalizing encodings with
  | nil => simpa [EncodesTo] using h
  | cons record records ih =>
    cases encodings with
    | nil => simp [EncodesTo] at h
    | cons encoding encodings =>
      simp only [EncodesTo, List.map_cons, List.cons.injEq] at h
      obtain ⟨hrecord, hrecords⟩ := h
      rw [encode] at hrecord
      split_ifs at hrecord
      rw [List.map_cons, ← Option.some.inj hrecord, ih hrecords]

theorem Decoder.Fits.take {d : Decoder} {before after : List Bytes}
    (h : d.Fits (before ++ after)) : d.Fits before := by
  induction before generalizing d with
  | nil => trivial
  | cons piece before ih => exact ⟨h.1, fun d' hd' => ih (h.2 d' hd')⟩

/-- What the pieces decode to is determined by their concatenation. -/
theorem readPieces_congr {pieces pieces' : List Bytes} (hfits : Decoder.empty.Fits pieces)
    (hfits' : Decoder.empty.Fits pieces') (hstream : pieces'.flatten = pieces.flatten) :
    Decoder.empty.readPieces pieces' = Decoder.empty.readPieces pieces := by
  obtain ⟨hrecords, hend⟩ := readPieces_empty hfits
  obtain ⟨hrecords', hend'⟩ := readPieces_empty hfits'
  rw [hstream, ← hrecords] at hrecords'
  rw [hstream, ← hend] at hend'
  refine Prod.ext hrecords' ?_
  rcases h : (Decoder.empty.readPieces pieces).2 with error | d <;>
    rcases h' : (Decoder.empty.readPieces pieces').2 with error' | d' <;>
    rw [h, h'] at hend' <;> simp only [Except.map] at hend'
  · exact congrArg Except.error (Except.error.inj hend')
  · cases hend'
  · cases hend'
  · rw [Decoder.ext (Except.ok.inj hend')]

/-- **The codec is exact and does not depend on the pieces.** A stream of encoded valid records
decodes to these records and leaves nothing; what any stream decodes to is valid, and encodes the
bytes consumed; reads that fit always have room, and never exceed the buffer. -/
theorem codec_bijection {pieces : List Bytes} (hfits : Decoder.empty.Fits pieces) :
    (∀ records encodings, (∀ record ∈ records, record.Valid) → EncodesTo records encodings →
      pieces.flatten = encodings.flatten →
        Decoder.empty.readPieces pieces = (records, .ok .empty)) ∧
    (∀ record ∈ (Decoder.empty.readPieces pieces).1, record.Valid) ∧
    (∃ encodings, EncodesTo (Decoder.empty.readPieces pieces).1 encodings ∧
      encodings.flatten <+: pieces.flatten ∧
      ∀ d, (Decoder.empty.readPieces pieces).2 = .ok d →
        encodings.flatten ++ d.buffer = pieces.flatten) ∧
    (∀ before after, pieces = before ++ after → ∀ d,
      (Decoder.empty.readPieces before).2 = .ok d →
        0 < d.remainingCapacity ∧ d.buffer.length ≤ maxIpcRecordBytes) ∧
    (Decoder.empty.readPieces pieces).2 ≠ .error .bufferLimit ∧
    ∀ pieces', Decoder.empty.Fits pieces' → pieces'.flatten = pieces.flatten →
      Decoder.empty.readPieces pieces' = Decoder.empty.readPieces pieces := by
  obtain ⟨hrecords, hend⟩ := readPieces_empty hfits
  have hvalid : ∀ record ∈ (Decoder.empty.readPieces pieces).1, record.Valid := by
    rw [hrecords]
    exact valid_of_drain
  refine ⟨?_, hvalid, ?_, ?_, ?_, fun pieces' hfits' => readPieces_congr hfits hfits'⟩
  · intro records encodings hrecords' hencode hstream
    have hdrain : ipcFormat.drain pieces.flatten = (records, .ok []) := by
      rw [hstream, hencode.eq, ← List.flatMap_def]
      have hcut : ∀ r ∈ records, ∀ c,
          ipcFormat.cut (writeRecord r ++ c) = .done r (writeRecord r).length :=
        fun r hr c => cut_encode (hrecords' r hr) c
      have := Format.drain_flatMap hcut []
      rwa [List.append_nil, Format.drain_more cut_nil, List.append_nil] at this
    rw [hdrain] at hrecords hend
    refine Prod.ext hrecords ?_
    rcases hlast : (Decoder.empty.readPieces pieces).2 with error | d
    · rw [hlast] at hend
      cases hend
    · rw [hlast] at hend
      exact congrArg Except.ok (Decoder.ext (Except.ok.inj hend))
  · refine ⟨_, encodesTo_writeRecord hvalid, ?_, ?_⟩
    · rw [hrecords, ← List.flatMap_def]
      exact (Format.drain_encode (fun hcut => writeRecord_cut hcut) _).1
    · intro d hd
      rw [hrecords, ← List.flatMap_def]
      refine (Format.drain_encode (fun hcut => writeRecord_cut hcut) _).2 _ ?_
      rw [← hend, hd]
      rfl
  · rintro before after rfl d hd
    exact ⟨readPieces_room hfits.take hd, d.length_le⟩
  · intro herror
    rw [herror] at hend
    exact drain_ne_bufferLimit _ hend.symm

/-- A short stream fits, however it is cut. -/
theorem Decoder.fits_of_short {d : Decoder} {pieces : List Bytes} (hne : ∀ piece ∈ pieces, piece ≠ [])
    (h : d.buffer.length + pieces.flatten.length ≤ ioChunkBytes) : d.Fits pieces := by
  have hlimit : 2 * ioChunkBytes ≤ maxIpcRecordBytes := by decide
  induction pieces generalizing d with
  | nil => trivial
  | cons piece pieces ih =>
    rw [List.flatten_cons, List.length_append] at h
    obtain ⟨hpiece, hpieces⟩ := List.forall_mem_cons.mp hne
    have hroom : piece.length ≤ d.remainingCapacity := by
      rw [remainingCapacity]
      omega
    refine ⟨⟨hpiece, Nat.le_min.mpr ⟨hroom, by omega⟩⟩, fun d' hd' => ih hpieces ?_⟩
    -- What is left is a part of what was there.
    have hrest := (readPiece_eq hroom).2
    rw [hd'] at hrest
    have hsuffix := (Format.drain_rest hrest.symm).2.length_le
    rw [List.length_append] at hsuffix
    omega

/-- Three records, cut in a header and in a payload. -/
def examplePieces : List Bytes :=
  [[1, 0, 0], [0, 4, 0, 24], [0, 80, 3, 0, 0], [0, 5, 0x68, 0x65], [0x6c, 0x6c, 0x6f, 5, 0, 0, 0, 0]]

/-- A `Stop`, and a record of no kind. -/
def exampleBad : List Bytes := [[5, 0, 0], [0, 0, 9, 0, 0, 0, 0, 5]]

/-- Three records are read from five pieces; before a record of no kind one is read. -/
theorem codec_bijection_pieces :
    Decoder.empty.readPieces examplePieces =
        ([.attach 24 80, .output [0x68, 0x65, 0x6c, 0x6c, 0x6f], .stop], .ok .empty) ∧
      (Decoder.empty.readPieces exampleBad).1 = [.stop] ∧
      (Decoder.empty.readPieces exampleBad).2.isOk = false ∧
      ∃ encodings, EncodesTo (Decoder.empty.readPieces exampleBad).1 encodings ∧
        encodings.flatten <+: exampleBad.flatten := by
  have hfits : Decoder.empty.Fits examplePieces := Decoder.fits_of_short (by decide) (by decide)
  have hbad : Decoder.empty.Fits exampleBad := Decoder.fits_of_short (by decide) (by decide)
  obtain ⟨encodings, hencodes, hprefix, -⟩ := (codec_bijection hbad).2.2.1
  refine ⟨(codec_bijection hfits).1 _ [[1, 0, 0, 0, 4, 0, 24, 0, 80],
    [3, 0, 0, 0, 5, 0x68, 0x65, 0x6c, 0x6c, 0x6f], [5, 0, 0, 0, 0]] ?_ ?_ rfl,
    by decide +kernel, by decide +kernel, encodings, hencodes, hprefix⟩
  · simp [Record.Valid]
    decide
  · exact rfl

end AfkCli
