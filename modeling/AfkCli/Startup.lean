import AfkCli.Ipc
import AfkCli.System

/-!
# The start-up configuration

What the launcher tells a runner on the start-up socket: the terminal's size, the trace flag and
the command.

## Main definitions

* `StartupConfig`, `StartupConfig.Valid`: the configuration, and what the command line promises
* `writeStartupConfig`, `readStartupConfig`: its bytes

## Main results

* `readStartupConfig_writeStartupConfig`: a valid configuration arrives unchanged
-/

namespace AfkCli

structure StartupConfig where
  trace : Bool
  command : List Bytes
  rows : UInt16
  columns : UInt16
  deriving DecidableEq

/-- The command is within the limits of the command line, and the size within those of the
terminal. -/
structure StartupConfig.Valid (config : StartupConfig) : Prop where
  count_le : config.command.length ≤ maxCommandArguments
  bytes_le : (config.command.map List.length).sum ≤ maxCommandBytes
  rows_range : 1 ≤ config.rows ∧ config.rows ≤ maxTerminalDimension
  columns_range : 1 ≤ config.columns ∧ config.columns ≤ maxTerminalDimension

/-! ## Writing -/

/-- The bytes of the arguments. An argument whose length does not fit 32 bits ends them. -/
def writeArguments : List Bytes → Bytes × Except IoError Unit
  | [] => ([], .ok ())
  | argument :: rest =>
    if argument.length < 2 ^ 32 then
      let (bytes, result) := writeArguments rest
      (be32 argument.length ++ argument ++ bytes, result)
    else ([], .error (IoError.new .invalidInput "command argument too large"))

/-- The bytes that are written, and the error that ends the writing. -/
def writeStartupConfig (config : StartupConfig) : Bytes × Except IoError Unit :=
  if config.command.length < 2 ^ 16 then
    let (arguments, result) := writeArguments config.command
    (be16 config.rows ++ be16 config.columns ++ [if config.trace then 1 else 0] ++
      be16 (UInt16.ofNat config.command.length) ++ arguments, result)
  else ([], .error (IoError.new .invalidInput "too many command arguments"))

/-! ## Reading -/

/-- Reading from the start-up socket. -/
abbrev Reader := StateT Bytes (Except IoError)

/-- `read_exact` -/
def readExact (n : Nat) : Reader Bytes := fun bytes =>
  if bytes.length < n then .error (IoError.new .unexpectedEof "failed to fill whole buffer")
  else .ok (bytes.take n, bytes.drop n)

def readU8 : Reader UInt8 := do return (← readExact 1).headD 0

def readU16 : Reader UInt16 := do
  match ← readExact 2 with
  | [high, low] => return fromBe16 high low
  | _ => return 0

def readU32 : Reader Nat := do
  match ← readExact 4 with
  | [a, b, c, d] => return fromBe32 a b c d
  | _ => return 0

/-- The arguments, with the sum of the lengths before them. -/
def readArguments : Nat → Nat → Reader (List Bytes)
  | 0, _ => return []
  | count + 1, aggregate => do
    let length ← readU32
    if maxCommandBytes < aggregate + length then
      throw (IoError.new .invalidData "command arguments too large")
    else
      let argument ← readExact length
      let rest ← readArguments count (aggregate + length)
      return argument :: rest

def readConfig : Reader StartupConfig := do
  let rows ← readU16
  let columns ← readU16
  let trace ← readU8
  if 1 < trace then throw (IoError.new .invalidData "invalid trace option")
  else if rows = 0 ∨ columns = 0 ∨ 4096 < rows ∨ 4096 < columns then
    throw (IoError.new .invalidData "invalid terminal dimensions")
  else
    let count ← readU16
    if maxCommandArguments < count.toNat then
      throw (IoError.new .invalidData "too many command arguments")
    else
      let command ← readArguments count.toNat 0
      return { trace := trace == 1, command, rows, columns }

def readStartupConfig (bytes : Bytes) : Except IoError StartupConfig :=
  (readConfig bytes).map Prod.fst

/-! ## Round trip -/

/-- A step that succeeds, and then the rest. -/
theorem reader_bind {α β : Type} {m : Reader α} {f : α → Reader β} {input rest : Bytes} {a : α}
    (h : m input = .ok (a, rest)) : (m >>= f) input = f a rest := by
  simp only [bind, StateT.bind, h, Except.bind]

theorem readExact_append {n : Nat} {a : Bytes} (h : a.length = n) (b : Bytes) :
    readExact n (a ++ b) = .ok (a, b) := by
  subst h
  simp [readExact]

theorem readU8_cons (byte : UInt8) (rest : Bytes) : readU8 (byte :: rest) = .ok (byte, rest) := by
  rw [readU8, ← List.singleton_append, reader_bind (readExact_append (List.length_singleton) rest)]
  rfl

theorem readU16_be16 (n : UInt16) (rest : Bytes) : readU16 (be16 n ++ rest) = .ok (n, rest) := by
  have hlength : (be16 n).length = 2 := rfl
  rw [readU16, reader_bind (readExact_append hlength rest)]
  simp only [be16, fromBe16_be16]
  rfl

theorem readU32_be32 {n : Nat} (hn : n < 2 ^ 32) (rest : Bytes) :
    readU32 (be32 n ++ rest) = .ok (n, rest) := by
  have hlength : (be32 n).length = 4 := by simp only [be32, List.length_cons, List.length_nil]
  rw [readU32, reader_bind (readExact_append hlength rest)]
  simp only [be32, fromBe32_be32 hn]
  rfl

theorem readArguments_cons {argument : Bytes} {count aggregate : Nat} {input rest : Bytes}
    {command : List Bytes} (hlength : argument.length < 2 ^ 32)
    (hfits : aggregate + argument.length ≤ maxCommandBytes)
    (hrest : readArguments count (aggregate + argument.length) input = .ok (command, rest)) :
    readArguments (count + 1) aggregate (be32 argument.length ++ (argument ++ input)) =
      .ok (argument :: command, rest) := by
  rw [readArguments, reader_bind (readU32_be32 hlength _), if_neg (Nat.not_lt.mpr hfits),
    reader_bind (readExact_append rfl input), reader_bind hrest]
  rfl

theorem readArguments_writeArguments {command : List Bytes} {aggregate : Nat} (rest : Bytes)
    (h : aggregate + (command.map List.length).sum ≤ maxCommandBytes) :
    readArguments command.length aggregate ((writeArguments command).1 ++ rest) =
      .ok (command, rest) := by
  induction command generalizing aggregate with
  | nil => rfl
  | cons argument command ih =>
    simp only [List.map_cons, List.sum_cons] at h
    have hlimit : maxCommandBytes < 2 ^ 32 := by simp [maxCommandBytes]
    have hlength : argument.length < 2 ^ 32 := by omega
    have hrest : readArguments command.length (aggregate + argument.length)
        ((writeArguments command).1 ++ rest) = .ok (command, rest) := ih (by omega)
    simp only [writeArguments, if_pos hlength, List.length_cons, List.append_assoc]
    exact readArguments_cons hlength (by omega) hrest

theorem writeArguments_ok {command : List Bytes}
    (h : (command.map List.length).sum ≤ maxCommandBytes) : (writeArguments command).2 = .ok () := by
  induction command with
  | nil => rfl
  | cons argument command ih =>
    simp only [List.map_cons, List.sum_cons] at h
    have hlimit : maxCommandBytes < 2 ^ 32 := by simp [maxCommandBytes]
    have hlength : argument.length < 2 ^ 32 := by omega
    simp only [writeArguments, if_pos hlength]
    exact ih (by omega)

/-- A valid configuration is written without an error. -/
theorem writeStartupConfig_ok {config : StartupConfig} (h : config.Valid) :
    (writeStartupConfig config).2 = .ok () := by
  have hcount : config.command.length < 2 ^ 16 :=
    Nat.lt_of_le_of_lt h.count_le (by simp [maxCommandArguments])
  simp only [writeStartupConfig, if_pos hcount]
  exact writeArguments_ok h.bytes_le

/-- A valid configuration is read from its bytes, and nothing after them. -/
theorem readConfig_writeStartupConfig {config : StartupConfig} (h : config.Valid) (rest : Bytes) :
    readConfig ((writeStartupConfig config).1 ++ rest) = .ok (config, rest) := by
  have hcount : config.command.length < 2 ^ 16 :=
    Nat.lt_of_le_of_lt h.count_le (by simp [maxCommandArguments])
  have htrace : ¬ (1 : UInt8) < if config.trace then 1 else 0 := by
    cases config.trace <;> decide
  have hdimensions : ¬ (config.rows = 0 ∨ config.columns = 0 ∨ 4096 < config.rows ∨
      4096 < config.columns) := by
    obtain ⟨hrows, hrows'⟩ := h.rows_range
    obtain ⟨hcolumns, hcolumns'⟩ := h.columns_range
    simp only [maxTerminalDimension, UInt16.lt_iff_toNat_lt, UInt16.le_iff_toNat_le,
      ← UInt16.toNat_inj] at *
    simp only [UInt16.reduceToNat] at *
    omega
  have hlength : (UInt16.ofNat config.command.length).toNat = config.command.length := by
    simp only [UInt16.toNat_ofNat']
    omega
  have harguments : readArguments config.command.length 0
      ((writeArguments config.command).1 ++ rest) = .ok (config.command, rest) :=
    readArguments_writeArguments rest (by simpa using h.bytes_le)
  rw [writeStartupConfig, if_pos hcount]
  simp only [List.append_assoc, List.singleton_append]
  rw [readConfig, reader_bind (readU16_be16 config.rows _),
    reader_bind (readU16_be16 config.columns _), List.cons_append,
    reader_bind (readU8_cons _ _), if_neg htrace, if_neg hdimensions,
    reader_bind (readU16_be16 _ _), hlength, if_neg (Nat.not_lt.mpr h.count_le),
    reader_bind harguments]
  cases config with
  | mk trace command rows columns => cases trace <;> rfl

/-- The runner reads the configuration that the launcher wrote. -/
theorem readStartupConfig_writeStartupConfig {config : StartupConfig} (h : config.Valid) :
    readStartupConfig (writeStartupConfig config).1 = .ok config := by
  have hconfig := readConfig_writeStartupConfig h []
  rw [List.append_nil] at hconfig
  rw [readStartupConfig, hconfig]
  rfl

end AfkCli
