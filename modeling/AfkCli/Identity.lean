import AfkCli.Limits

/-!
# Session identities

A session ID is sixteen bytes, written as 32 lowercase hexadecimal characters.

## Main definitions

* `SessionId`: a session ID
* `SessionId.toText`: its lowercase hexadecimal text
* `SessionId.parseBytes`: the strict parser of that text

## Main results

* `SessionId.parseBytes_toText`: the parser accepts the text of every ID, with that ID
* `SessionId.parseBytes_eq_some`: it accepts nothing else
* `SessionId.parseBytes_isSome`: what it accepts is 32 lowercase hexadecimal characters
* `SessionId.toText_injective`: distinct IDs have distinct texts
-/

namespace AfkCli

/-- A 128-bit session ID. -/
structure SessionId where
  bytes : Bytes
  length_eq : bytes.length = 16
  deriving DecidableEq

/-- The character of a nibble. -/
def hexDigit (nibble : UInt8) : UInt8 :=
  if nibble < 10 then 48 + nibble else 87 + nibble

def decodeNibble (byte : UInt8) : Option UInt8 :=
  if 48 ≤ byte ∧ byte ≤ 57 then some (byte - 48)
  else if 97 ≤ byte ∧ byte ≤ 102 then some (byte - 97 + 10)
  else none

/-- The two characters of a byte, high nibble first. -/
def hexByte (byte : UInt8) : Bytes := [hexDigit (byte >>> 4), hexDigit (byte &&& 0x0f)]

/-- The bytes of a hexadecimal text, taken in pairs of characters. -/
def decodePairs : Bytes → Option Bytes
  | [] => some []
  | high :: low :: rest => do
    let h ← decodeNibble high
    let l ← decodeNibble low
    let bytes ← decodePairs rest
    some (((h <<< 4) ||| l) :: bytes)
  | [_] => none

namespace SessionId

/-- The canonical text of an ID (`Display`). -/
def toText (s : SessionId) : Bytes := s.bytes.flatMap hexByte

theorem length_decodePairs {encoded bytes : Bytes} (h : decodePairs encoded = some bytes) :
    encoded.length = 2 * bytes.length := by
  induction encoded using decodePairs.induct generalizing bytes with
  | case1 => simp_all [decodePairs]
  | case2 high low rest ih =>
    simp only [decodePairs, Option.bind_eq_bind, Option.bind_eq_some_iff] at h
    obtain ⟨_, -, _, -, tail, htail, hbytes⟩ := h
    obtain rfl : _ :: tail = bytes := by simpa using hbytes
    simp only [List.length_cons, ih htail]
    omega
  | case3 => simp [decodePairs] at h

/-- The strict parser: exactly 32 lowercase hexadecimal characters. -/
def parseBytes (encoded : Bytes) : Option SessionId :=
  if hlen : encoded.length = 32 then
    match hdec : decodePairs encoded with
    | some bytes => some ⟨bytes, by have := length_decodePairs hdec; omega⟩
    | none => none
  else none

/-- A property of bytes, checked on the 256 of them. -/
theorem forall_byte {P : UInt8 → Prop} (h : ∀ n : Fin 256, P (UInt8.ofNat n)) (byte : UInt8) :
    P byte := by
  have := h ⟨byte.toNat, byte.toNat_lt⟩
  rwa [UInt8.ofNat_toNat] at this

theorem decodeNibble_hexDigit_high (byte : UInt8) :
    decodeNibble (hexDigit (byte >>> 4)) = some (byte >>> 4) :=
  forall_byte (P := fun byte => decodeNibble (hexDigit (byte >>> 4)) = some (byte >>> 4))
    (by decide +kernel) byte

theorem decodeNibble_hexDigit_low (byte : UInt8) :
    decodeNibble (hexDigit (byte &&& 0x0f)) = some (byte &&& 0x0f) :=
  forall_byte (P := fun byte => decodeNibble (hexDigit (byte &&& 0x0f)) = some (byte &&& 0x0f))
    (by decide +kernel) byte

theorem nibbles_join (byte : UInt8) : ((byte >>> 4) <<< 4) ||| (byte &&& 0x0f) = byte :=
  forall_byte (P := fun byte => ((byte >>> 4) <<< 4) ||| (byte &&& 0x0f) = byte)
    (by decide +kernel) byte

theorem decodePairs_flatMap_hexByte (bytes : Bytes) :
    decodePairs (bytes.flatMap hexByte) = some bytes := by
  induction bytes with
  | nil => rfl
  | cons b rest ih =>
    simp only [List.flatMap_cons, hexByte, List.cons_append, List.nil_append, decodePairs,
      decodeNibble_hexDigit_high, decodeNibble_hexDigit_low, Option.bind_eq_bind,
      Option.bind_some, nibbles_join]
    rw [ih]
    rfl

@[simp] theorem length_toText (s : SessionId) : s.toText.length = 32 := by
  have h := length_decodePairs (decodePairs_flatMap_hexByte s.bytes)
  rw [toText, h, s.length_eq]

/-- Every ID is read back from its text. -/
theorem parseBytes_toText (s : SessionId) : parseBytes s.toText = some s := by
  have hdec : decodePairs s.toText = some s.bytes := decodePairs_flatMap_hexByte s.bytes
  unfold parseBytes
  rw [dif_pos s.length_toText]
  split
  · next bytes h =>
    rw [hdec] at h
    cases s
    simp_all
  · next h => simp [hdec] at h

/-- A character `0` to `9` or `a` to `f`. -/
def isLowerHex (byte : UInt8) : Bool :=
  (48 ≤ byte && byte ≤ 57) || (97 ≤ byte && byte ≤ 102)

theorem decodeNibble_isSome (byte : UInt8) :
    (decodeNibble byte).isSome = true ↔ isLowerHex byte = true :=
  forall_byte (P := fun byte => (decodeNibble byte).isSome = true ↔ isLowerHex byte = true)
    (by decide +kernel) byte

theorem decodeNibble_none_or (byte : UInt8) :
    decodeNibble byte = none ∨ ∃ n : Fin 16, decodeNibble byte = some (UInt8.ofNat n) ∧
      hexDigit (UInt8.ofNat n) = byte :=
  forall_byte (P := fun byte => decodeNibble byte = none ∨ ∃ n : Fin 16,
    decodeNibble byte = some (UInt8.ofNat n) ∧ hexDigit (UInt8.ofNat n) = byte)
    (by decide +kernel) byte

/-- The two nibbles of a byte are read off the byte that joins them. -/
theorem nibbles_split (h l : Fin 16) :
    ((UInt8.ofNat h <<< 4 ||| UInt8.ofNat l) >>> 4 = UInt8.ofNat h) ∧
      ((UInt8.ofNat h <<< 4 ||| UInt8.ofNat l) &&& 0x0f = UInt8.ofNat l) := by
  revert h l
  decide +kernel

/-- What the decoder accepts is the text of what it returns. -/
theorem flatMap_hexByte_of_decodePairs {encoded bytes : Bytes}
    (h : decodePairs encoded = some bytes) : bytes.flatMap hexByte = encoded := by
  induction encoded using decodePairs.induct generalizing bytes with
  | case1 =>
    obtain rfl : [] = bytes := by simpa [decodePairs] using h
    rfl
  | case2 high low rest ih =>
    simp only [decodePairs, Option.bind_eq_bind, Option.bind_eq_some_iff] at h
    obtain ⟨h', hhigh, l', hlow, tail, htail, hbytes⟩ := h
    obtain rfl : _ :: tail = bytes := by simpa using hbytes
    obtain hnone | ⟨n, hn, hdigit⟩ := decodeNibble_none_or high
    · simp [hnone] at hhigh
    obtain hnone | ⟨m, hm, hdigit'⟩ := decodeNibble_none_or low
    · simp [hnone] at hlow
    obtain rfl : UInt8.ofNat n = h' := Option.some.inj (hn.symm.trans hhigh)
    obtain rfl : UInt8.ofNat m = l' := Option.some.inj (hm.symm.trans hlow)
    obtain ⟨hsplit, hsplit'⟩ := nibbles_split n m
    simp only [List.flatMap_cons, hexByte, hsplit, hsplit', hdigit, hdigit', ih htail,
      List.cons_append, List.nil_append]
  | case3 => simp [decodePairs] at h

/-- **The parser accepts the text of an ID and nothing else.** -/
theorem parseBytes_eq_some {encoded : Bytes} {s : SessionId} :
    parseBytes encoded = some s ↔ encoded = s.toText := by
  constructor
  · intro h
    unfold parseBytes at h
    split at h
    · split at h
      · rename_i bytes hdec
        obtain rfl := Option.some.inj h
        exact (flatMap_hexByte_of_decodePairs hdec).symm
      · cases h
    · cases h
  · rintro rfl
    exact parseBytes_toText s

theorem decodePairs_isSome {encoded : Bytes} (heven : encoded.length % 2 = 0) :
    (decodePairs encoded).isSome = true ↔ ∀ byte ∈ encoded, isLowerHex byte = true := by
  induction encoded using decodePairs.induct with
  | case1 => simp [decodePairs]
  | case2 high low rest ih =>
    have hrest : rest.length % 2 = 0 := by
      simp only [List.length_cons] at heven
      omega
    rw [List.forall_mem_cons, List.forall_mem_cons, ← ih hrest, ← decodeNibble_isSome,
      ← decodeNibble_isSome]
    simp only [decodePairs, Option.bind_eq_bind, Option.isSome_iff_exists,
      Option.bind_eq_some_iff]
    constructor
    · rintro ⟨_, h, hh, l, hl, bytes, hbytes, -⟩
      exact ⟨⟨h, hh⟩, ⟨l, hl⟩, ⟨bytes, hbytes⟩⟩
    · rintro ⟨⟨h, hh⟩, ⟨l, hl⟩, ⟨bytes, hbytes⟩⟩
      exact ⟨_, h, hh, l, hl, bytes, hbytes, rfl⟩
  | case3 => simp at heven

/-- What the parser accepts is 32 lowercase hexadecimal characters. -/
theorem parseBytes_isSome {encoded : Bytes} :
    (parseBytes encoded).isSome = true ↔
      encoded.length = 32 ∧ ∀ byte ∈ encoded, isLowerHex byte = true := by
  unfold parseBytes
  split
  · rename_i hlen
    rw [← decodePairs_isSome (by omega)]
    split <;> simp_all
  · simp_all

theorem toText_injective : Function.Injective toText := fun s t h => by
  have := parseBytes_toText s
  rw [h, parseBytes_toText] at this
  exact (Option.some.inj this).symm

@[simp] theorem toText_inj {s t : SessionId} : s.toText = t.toText ↔ s = t :=
  toText_injective.eq_iff

end SessionId

end AfkCli
