import AfkCli.Registry

/-!
# The JSON text of records

The compact text that `serde_json` writes for a record, and a reader for it.

## Main definitions

* `Json.text`, `Json.read`: a record's text, and its reader
* `jsonSerde`: the two together

## Main results

* `Json.read_text`: every record is read back
* `Json.length_text_le`: the text of a session's record is small
-/

namespace AfkCli

namespace Json

/-! ## Writing -/

def escape (byte : UInt8) : Bytes :=
  if byte = 0x22 ∨ byte = 0x5c then [0x5c, byte] else [byte]

def quote (text : Bytes) : Bytes := 0x22 :: (text.flatMap escape ++ [0x22])

def flag (value : Bool) : Bytes := if value then ascii "true" else ascii "false"

def exitText : ExitMetadata → Bytes
  | .code c => ascii "\x7b\"reason\":\"code\",\"value\":" ++ (decimal c.toNat ++ ascii "\x7d")
  | .signal s => ascii "\x7b\"reason\":\"signal\",\"value\":" ++ (decimal s.toNat ++ ascii "\x7d")

def text : SessionMetadata → Bytes
  | .live sessionId runnerPid childPid startedAt attached =>
    ascii "\x7b\"state\":\"live\",\"session_id\":" ++ (quote sessionId ++
      (ascii ",\"runner_pid\":" ++ (decimal runnerPid.toNat ++
        (ascii ",\"child_pid\":" ++ (decimal childPid.toNat ++
          (ascii ",\"started_at\":" ++ (decimal startedAt.toNat ++
            (ascii ",\"attached\":" ++ (flag attached ++ ascii "\x7d")))))))))
  | .completed sessionId startedAt finishedAt exit outputBytes truncated =>
    ascii "\x7b\"state\":\"completed\",\"session_id\":" ++ (quote sessionId ++
      (ascii ",\"started_at\":" ++ (decimal startedAt.toNat ++
        (ascii ",\"finished_at\":" ++ (decimal finishedAt.toNat ++
          (ascii ",\"exit\":" ++ (exitText exit ++
            (ascii ",\"output_bytes\":" ++ (decimal outputBytes.toNat ++
              (ascii ",\"truncated\":" ++ (flag truncated ++ ascii "\x7d")))))))))))

/-! ## Reading -/

/-- Expect a text. -/
def literal : Bytes → Bytes → Option Bytes
  | [], input => some input
  | a :: expected, b :: input => if a = b then literal expected input else none
  | _ :: _, [] => none

/-- The rest of a quoted text. -/
def quoted : Bytes → Option (Bytes × Bytes)
  | [] => none
  | [byte] => if byte = 0x22 then some ([], []) else none
  | byte :: next :: rest =>
    if byte = 0x22 then some ([], next :: rest)
    else if byte = 0x5c then (quoted rest).map fun p => (next :: p.1, p.2)
    else (quoted (next :: rest)).map fun p => (byte :: p.1, p.2)

def isDigit (byte : UInt8) : Bool := (Char.ofNat byte.toNat).isDigit

def number (input : Bytes) : Option (Nat × Bytes) :=
  some (Nat.ofDigitChars 10 ((input.takeWhile isDigit).map fun b => Char.ofNat b.toNat) 0,
    input.dropWhile isDigit)

def readFlag (input : Bytes) : Option (Bool × Bytes) :=
  match literal (ascii "true") input with
  | some rest => some (true, rest)
  | none => (literal (ascii "false") input).map fun rest => (false, rest)

def readExit (input : Bytes) : Option (ExitMetadata × Bytes) :=
  match literal (ascii "\x7b\"reason\":\"code\",\"value\":") input with
  | some rest => do
    let (n, rest) ← number rest
    let rest ← literal (ascii "\x7d") rest
    return (.code (UInt8.ofNat n), rest)
  | none => do
    let rest ← literal (ascii "\x7b\"reason\":\"signal\",\"value\":") input
    let (n, rest) ← number rest
    let rest ← literal (ascii "\x7d") rest
    return (.signal (UInt8.ofNat n), rest)

def readLive (input : Bytes) : Option SessionMetadata := do
  let (sessionId, rest) ← literal (ascii "\"") input >>= quoted
  let (runnerPid, rest) ← literal (ascii ",\"runner_pid\":") rest >>= number
  let (childPid, rest) ← literal (ascii ",\"child_pid\":") rest >>= number
  let (startedAt, rest) ← literal (ascii ",\"started_at\":") rest >>= number
  let (attached, rest) ← literal (ascii ",\"attached\":") rest >>= readFlag
  let rest ← literal (ascii "\x7d") rest
  if rest = [] then
    return .live sessionId (UInt32.ofNat runnerPid) (UInt32.ofNat childPid)
      (UInt64.ofNat startedAt) attached
  else none

def readCompleted (input : Bytes) : Option SessionMetadata := do
  let (sessionId, rest) ← literal (ascii "\"") input >>= quoted
  let (startedAt, rest) ← literal (ascii ",\"started_at\":") rest >>= number
  let (finishedAt, rest) ← literal (ascii ",\"finished_at\":") rest >>= number
  let (exit, rest) ← literal (ascii ",\"exit\":") rest >>= readExit
  let (outputBytes, rest) ← literal (ascii ",\"output_bytes\":") rest >>= number
  let (truncated, rest) ← literal (ascii ",\"truncated\":") rest >>= readFlag
  let rest ← literal (ascii "\x7d") rest
  if rest = [] then
    return .completed sessionId (UInt64.ofNat startedAt) (UInt64.ofNat finishedAt) exit
      (UInt64.ofNat outputBytes) truncated
  else none

def read (input : Bytes) : Option SessionMetadata :=
  match literal (ascii "\x7b\"state\":\"live\",\"session_id\":") input with
  | some rest => readLive rest
  | none => literal (ascii "\x7b\"state\":\"completed\",\"session_id\":") input >>= readCompleted

/-! ## Reading back -/

@[simp] theorem literal_append (expected rest : Bytes) :
    literal expected (expected ++ rest) = some rest := by
  induction expected with
  | nil => rfl
  | cons a expected ih => simp only [List.cons_append, literal, if_pos, ih]

theorem quoted_escape (text rest : Bytes) :
    quoted (text.flatMap escape ++ 0x22 :: rest) = some (text, rest) := by
  induction text with
  | nil => cases rest <;> rfl
  | cons byte text ih =>
    simp only [List.flatMap_cons, escape]
    by_cases hbyte : byte = 0x22 ∨ byte = 0x5c
    · rw [if_pos hbyte, List.append_assoc]
      simp only [List.cons_append, List.nil_append, quoted]
      simp [ih]
    · rw [if_neg hbyte, List.append_assoc]
      simp only [not_or] at hbyte
      obtain ⟨next, tail, hnext⟩ : ∃ next tail,
          text.flatMap escape ++ 0x22 :: rest = next :: tail := by
        cases h : text.flatMap escape ++ 0x22 :: rest with
        | nil => simp at h
        | cons next tail => exact ⟨next, tail, rfl⟩
      rw [hnext] at ih
      simp only [List.cons_append, List.nil_append, hnext, quoted, if_neg hbyte.1,
        if_neg hbyte.2, ih, Option.map_some]

theorem char_of_digit {c : Char} (h : c.isDigit) :
    Char.ofNat (UInt8.ofNat c.toNat).toNat = c := by
  have hlt : c.toNat < 256 := by
    simp only [Char.isDigit, Bool.and_eq_true, decide_eq_true_eq] at h
    have : c.val.toNat ≤ 57 := h.2
    simp only [Char.toNat]
    omega
  rw [UInt8.toNat_ofNat', Nat.mod_eq_of_lt hlt, Char.ofNat_toNat]

theorem number_decimal (n : Nat) {rest : Bytes} (hrest : ∀ byte ∈ rest.head?, isDigit byte = false) :
    number (decimal n ++ rest) = some (n, rest) := by
  have hdigit : ∀ c ∈ Nat.toDigits 10 n, c.isDigit :=
    fun c hc => Nat.isDigit_of_mem_toDigits (by omega) (by omega) hc
  have hdecimal : ∀ b ∈ decimal n, isDigit b = true := by
    intro b hb
    obtain ⟨c, hc, rfl⟩ := List.mem_map.mp hb
    rw [isDigit, char_of_digit (hdigit c hc)]
    exact hdigit c hc
  have htake : (decimal n ++ rest).takeWhile isDigit = decimal n := by
    rw [List.takeWhile_append_of_pos hdecimal]
    cases rest with
    | nil => simp
    | cons byte rest =>
      rw [List.takeWhile_cons_of_neg (by simp [hrest byte rfl]), List.append_nil]
  have hdrop : (decimal n ++ rest).dropWhile isDigit = rest := by
    rw [List.dropWhile_append_of_pos hdecimal]
    cases rest with
    | nil => rfl
    | cons byte rest => rw [List.dropWhile_cons_of_neg (by simp [hrest byte rfl])]
  have hchars : (decimal n).map (fun b => Char.ofNat b.toNat) = Nat.toDigits 10 n := by
    rw [decimal, List.map_map]
    exact (List.map_congr_left fun c hc => char_of_digit (hdigit c hc)).trans (List.map_id _)
  rw [number, htake, hdrop, hchars, Nat.ofDigitChars_ten_toDigits]

theorem readFlag_flag (value : Bool) (rest : Bytes) :
    readFlag (flag value ++ rest) = some (value, rest) := by
  cases value with
  | true => simp only [flag, if_pos, readFlag, literal_append]
  | false =>
    have hnone : literal (ascii "true") (ascii "false" ++ rest) = none := rfl
    simp only [flag, Bool.false_eq_true, if_false, readFlag, hnone, literal_append,
      Option.map_some]

theorem readExit_exitText (exit : ExitMetadata) (rest : Bytes) :
    readExit (exitText exit ++ rest) = some (exit, rest) := by
  have hnumber : ∀ n : Nat, number (decimal n ++ (ascii "\x7d" ++ rest)) =
      some (n, ascii "\x7d" ++ rest) := fun n =>
    number_decimal n fun byte h => by
      obtain rfl := Option.some.inj h
      decide
  cases exit with
  | code c =>
    simp only [exitText, List.append_assoc, readExit, literal_append, hnumber, Option.bind_eq_bind,
      Option.bind_some, Option.pure_def, UInt8.ofNat_toNat]
  | signal c =>
    have hnone : literal (ascii "\x7b\"reason\":\"code\",\"value\":")
        (ascii "\x7b\"reason\":\"signal\",\"value\":" ++
          (decimal c.toNat ++ (ascii "\x7d" ++ rest))) = none := rfl
    simp only [exitText, List.append_assoc, readExit, hnone, literal_append, hnumber,
      Option.bind_eq_bind, Option.bind_some, Option.pure_def, UInt8.ofNat_toNat]

/-- A quoted text. -/
theorem literal_quote (text rest : Bytes) :
    (literal (ascii "\"") (quote text ++ rest) >>= quoted) = some (text, rest) := by
  have hquote : quote text ++ rest = ascii "\"" ++ (text.flatMap escape ++ 0x22 :: rest) := by
    have : ascii "\"" = [0x22] := rfl
    simp [quote, this]
  rw [hquote, literal_append]
  exact quoted_escape text rest

/-- A number before a comma. -/
theorem number_comma (after : Bytes) (hafter : after.head? = some 0x2c) (n : Nat) (rest : Bytes) :
    number (decimal n ++ (after ++ rest)) = some (n, after ++ rest) := by
  refine number_decimal n fun byte h => ?_
  rw [List.head?_append, hafter] at h
  obtain rfl := Option.some.inj h
  decide

theorem read_text (metadata : SessionMetadata) : read (text metadata) = some metadata := by
  have hclose : literal (ascii "\x7d") (ascii "\x7d") = some [] := by
    simpa using literal_append (ascii "\x7d") []
  cases metadata with
  | live sessionId runnerPid childPid startedAt attached =>
    have hchild := number_comma (ascii ",\"child_pid\":") rfl
    have hstarted := number_comma (ascii ",\"started_at\":") rfl
    have hattached := number_comma (ascii ",\"attached\":") rfl
    simp only [text, read, literal_append, readLive, literal_quote, Option.bind_eq_bind,
      Option.bind_some, hchild, hstarted, hattached, readFlag_flag, hclose, if_pos,
      Option.pure_def, UInt32.ofNat_toNat, UInt64.ofNat_toNat]
  | completed sessionId startedAt finishedAt exit outputBytes truncated =>
    have hnone : ∀ rest, literal (ascii "\x7b\"state\":\"live\",\"session_id\":")
        (ascii "\x7b\"state\":\"completed\",\"session_id\":" ++ rest) = none := fun _ => rfl
    have hfinished := number_comma (ascii ",\"finished_at\":") rfl
    have hexit := number_comma (ascii ",\"exit\":") rfl
    have htruncated := number_comma (ascii ",\"truncated\":") rfl
    simp only [text, read, hnone, literal_append, readCompleted, literal_quote,
      Option.bind_eq_bind, Option.bind_some, hfinished, hexit, readExit_exitText, htruncated,
      readFlag_flag, hclose, if_pos, Option.pure_def, UInt64.ofNat_toNat]

/-! ## Size -/

theorem length_quote_le (text : Bytes) : (quote text).length ≤ 2 * text.length + 2 := by
  have h : ∀ text : Bytes, (text.flatMap escape).length ≤ 2 * text.length := by
    intro text
    induction text with
    | nil => exact Nat.le_refl _
    | cons byte text ih =>
      have hbyte : (escape byte).length ≤ 2 := by
        unfold escape
        split <;> simp
      simp only [List.flatMap_cons, List.length_append, List.length_cons]
      omega
  simp only [quote, List.length_cons, List.length_append, List.length_nil]
  have := h text
  omega

theorem length_decimal_le {n k : Nat} (hk : 0 < k) (h : n < 10 ^ k) :
    (decimal n).length ≤ k := by
  rw [decimal, List.length_map]
  exact (Nat.length_toDigits_le_iff (by omega) hk).mpr h

theorem length_text_le (metadata : SessionMetadata) (h : metadata.sessionId.length = 32) :
    (text metadata).length ≤ maxMetadataBytes := by
  have h32 : ∀ n : UInt32, (decimal n.toNat).length ≤ 20 := fun n =>
    length_decimal_le (by omega) (by have := n.toNat_lt; omega)
  have h64 : ∀ n : UInt64, (decimal n.toNat).length ≤ 20 := fun n =>
    length_decimal_le (by omega) (by have := n.toNat_lt; omega)
  have hflag : ∀ value, (flag value).length ≤ 5 := by decide
  have hsizes : (ascii "\x7b\"state\":\"live\",\"session_id\":").length = 29 ∧
      (ascii "\x7b\"state\":\"completed\",\"session_id\":").length = 34 ∧
      (ascii ",\"runner_pid\":").length = 14 ∧ (ascii ",\"child_pid\":").length = 13 ∧
      (ascii ",\"started_at\":").length = 14 ∧ (ascii ",\"finished_at\":").length = 15 ∧
      (ascii ",\"attached\":").length = 12 ∧ (ascii ",\"exit\":").length = 8 ∧
      (ascii ",\"output_bytes\":").length = 16 ∧ (ascii ",\"truncated\":").length = 13 ∧
      (ascii "\x7d").length = 1 ∧
      (ascii "\x7b\"reason\":\"code\",\"value\":").length = 25 ∧
      (ascii "\x7b\"reason\":\"signal\",\"value\":").length = 27 := by decide
  have hmax : maxMetadataBytes = 65536 := rfl
  cases metadata with
  | live sessionId runnerPid childPid startedAt attached =>
    have hid := length_quote_le sessionId
    have hpid := h32 runnerPid
    have hchild := h32 childPid
    have hstarted := h64 startedAt
    have hattached := hflag attached
    simp only [SessionMetadata.sessionId] at h
    simp only [text, List.length_append, hsizes, hmax]
    omega
  | completed sessionId startedAt finishedAt exit outputBytes truncated =>
    have hid := length_quote_le sessionId
    have hstarted := h64 startedAt
    have hfinished := h64 finishedAt
    have hbytes := h64 outputBytes
    have htruncated := hflag truncated
    have hexit : (exitText exit).length ≤ 60 := by
      have h8 : ∀ n : UInt8, (decimal n.toNat).length ≤ 3 := fun n =>
        length_decimal_le (by omega) (by have := n.toNat_lt; omega)
      cases exit with
      | code c =>
        have hc := h8 c
        simp only [exitText, List.length_append, hsizes]
        omega
      | signal c =>
        have hc := h8 c
        simp only [exitText, List.length_append, hsizes]
        omega
    simp only [SessionMetadata.sessionId] at h
    simp only [text, List.length_append, hsizes, hmax]
    omega

end Json

/-- The records' text. -/
def jsonSerde : Serde where
  toVec := Json.text
  fromSlice := Json.read
  fromSlice_toVec := Json.read_text
  length_toVec_le := Json.length_text_le

end AfkCli
