import AfkCli.Cli
import AfkCli.Codec
import AfkCli.Startup

/-!
# The command reaches the child

The command line of `afk session` crosses two processes: the launcher sends it to the runner on the
start-up socket, and the runner starts the child with it as a command line of its own.

## Main results

* `readConfig_ok`: what the runner accepts is what the launcher writes
* `command_delivered`: the command, the size and the trace flag arrive unchanged
-/

namespace AfkCli

section reader

variable {α β : Type} {input rest : Bytes}

/-- A sequence of steps that succeeds is a step that succeeds, and then the rest. -/
theorem reader_bind_ok {m : Reader α} {f : α → Reader β} {b : β}
    (h : (m >>= f) input = .ok (b, rest)) :
    ∃ a mid, m input = .ok (a, mid) ∧ f a mid = .ok (b, rest) := by
  simp only [bind, StateT.bind, Except.bind] at h
  cases hm : m input with
  | error error => simp [hm] at h
  | ok result =>
    rw [hm] at h
    exact ⟨result.1, result.2, rfl, h⟩

theorem readExact_ok {n : Nat} {a : Bytes} (h : readExact n input = .ok (a, rest)) :
    a.length = n ∧ input = a ++ rest := by
  unfold readExact at h
  split_ifs at h with hshort
  obtain ⟨rfl, rfl⟩ := Prod.mk.inj (Except.ok.inj h)
  rw [List.length_take, List.take_append_drop]
  exact ⟨by omega, rfl⟩

theorem readU8_ok {byte : UInt8} (h : readU8 input = .ok (byte, rest)) :
    input = byte :: rest := by
  obtain ⟨a, mid, hread, hret⟩ := reader_bind_ok h
  obtain ⟨hlength, rfl⟩ := readExact_ok hread
  obtain ⟨rfl, rfl⟩ := Prod.mk.inj (Except.ok.inj hret)
  obtain ⟨byte, rfl⟩ := List.length_eq_one_iff.mp hlength
  rfl

theorem readU16_ok {n : UInt16} (h : readU16 input = .ok (n, rest)) : input = be16 n ++ rest := by
  obtain ⟨a, mid, hread, hret⟩ := reader_bind_ok h
  obtain ⟨hlength, rfl⟩ := readExact_ok hread
  obtain ⟨high, low, rfl⟩ := List.length_eq_two.mp hlength
  obtain ⟨rfl, rfl⟩ := Prod.mk.inj (Except.ok.inj hret)
  rw [be16_fromBe16]

theorem readU32_ok {n : Nat} (h : readU32 input = .ok (n, rest)) :
    n < 2 ^ 32 ∧ input = be32 n ++ rest := by
  obtain ⟨a, mid, hread, hret⟩ := reader_bind_ok h
  obtain ⟨hlength, rfl⟩ := readExact_ok hread
  rcases a with _ | ⟨a, _ | ⟨b, _ | ⟨c, _ | ⟨d, _ | ⟨e, tail⟩⟩⟩⟩⟩ <;> simp at hlength
  obtain ⟨rfl, rfl⟩ := Prod.mk.inj (Except.ok.inj hret)
  rw [be32_fromBe32]
  refine ⟨?_, rfl⟩
  have ha := a.toNat_lt
  have hb := b.toNat_lt
  have hc := c.toNat_lt
  have hd := d.toNat_lt
  simp only [fromBe32]
  omega

end reader

/-- Arguments that are read are those that are written, and within the bound. -/
theorem readArguments_ok {count aggregate : Nat} {input rest : Bytes} {command : List Bytes}
    (h : readArguments count aggregate input = .ok (command, rest)) (hle : aggregate ≤ maxCommandBytes) :
    command.length = count ∧ aggregate + (command.map List.length).sum ≤ maxCommandBytes ∧
      input = (writeArguments command).1 ++ rest := by
  induction count generalizing aggregate input command with
  | zero =>
    obtain ⟨rfl, rfl⟩ := Prod.mk.inj (Except.ok.inj h)
    exact ⟨rfl, by simpa using hle, rfl⟩
  | succ count ih =>
    obtain ⟨length, mid, hlength, hbody⟩ := reader_bind_ok h
    obtain ⟨hlt, rfl⟩ := readU32_ok hlength
    split_ifs at hbody with hlimit
    · cases hbody
    · obtain ⟨argument, mid', hargument, htail⟩ := reader_bind_ok hbody
      obtain ⟨hlen, rfl⟩ := readExact_ok hargument
      obtain ⟨arguments, mid'', harguments, hret⟩ := reader_bind_ok htail
      obtain ⟨rfl, rfl⟩ := Prod.mk.inj (Except.ok.inj hret)
      obtain ⟨hcount, hsum, rfl⟩ := ih harguments (by omega)
      subst hlen
      refine ⟨by rw [List.length_cons, hcount], ?_, ?_⟩
      · rw [List.map_cons, List.sum_cons]
        omega
      · simp only [writeArguments, if_pos hlt, List.append_assoc]

/-- **What the runner accepts is what the launcher writes** for the configuration it returns, and
that configuration is valid. -/
theorem readConfig_ok {input rest : Bytes} {config : StartupConfig}
    (h : readConfig input = .ok (config, rest)) :
    config.Valid ∧ input = (writeStartupConfig config).1 ++ rest := by
  obtain ⟨rows, mid₁, hrows, h₁⟩ := reader_bind_ok h
  obtain ⟨columns, mid₂, hcolumns, h₂⟩ := reader_bind_ok h₁
  obtain ⟨trace, mid₃, htrace, h₃⟩ := reader_bind_ok h₂
  split_ifs at h₃ with hflag hdimensions
  · cases h₃
  · cases h₃
  · obtain ⟨count, mid₄, hcount, h₄⟩ := reader_bind_ok h₃
    split_ifs at h₄ with hmany
    · cases h₄
    · obtain ⟨command, mid₅, hcommand, h₅⟩ := reader_bind_ok h₄
      obtain ⟨rfl, rfl⟩ := Prod.mk.inj (Except.ok.inj h₅)
      obtain ⟨hlength, hsum, rfl⟩ := readArguments_ok hcommand (Nat.zero_le _)
      obtain rfl := readU16_ok hrows
      obtain rfl := readU16_ok hcolumns
      obtain rfl := readU8_ok htrace
      obtain rfl := readU16_ok hcount
      have hrange : ∀ n : UInt16, n ≠ 0 → ¬ 4096 < n → 1 ≤ n ∧ n ≤ maxTerminalDimension := by
        intro n hzero hbig
        simp only [maxTerminalDimension, UInt16.lt_iff_toNat_lt, UInt16.le_iff_toNat_le, ne_eq,
          ← UInt16.toNat_inj] at *
        simp only [UInt16.reduceToNat] at *
        omega
      simp only [not_or] at hdimensions
      have hvalid : StartupConfig.Valid { trace := trace == 1, command, rows, columns } :=
        { count_le := by rw [hlength]; omega
          bytes_le := by simpa using hsum
          rows_range := hrange rows hdimensions.1 hdimensions.2.2.1
          columns_range := hrange columns hdimensions.2.1 hdimensions.2.2.2 }
      refine ⟨hvalid, ?_⟩
      have hsmall : command.length < 2 ^ 16 :=
        Nat.lt_of_le_of_lt hvalid.count_le (by simp [maxCommandArguments])
      have hwritten : UInt16.ofNat command.length = count := by
        rw [hlength, UInt16.ofNat_toNat]
      have hbyte : (if (trace == 1) = true then (1 : UInt8) else 0) = trace := by
        have hcases : ∀ byte : UInt8, ¬ 1 < byte →
            (if (byte == 1) = true then (1 : UInt8) else 0) = byte :=
          fun byte => SessionId.forall_byte
            (P := fun byte => ¬ 1 < byte → (if (byte == 1) = true then (1 : UInt8) else 0) = byte)
            (by decide +kernel) byte
        exact hcases trace hflag
      rw [writeStartupConfig, if_pos hsmall]
      simp only [hwritten, hbyte, List.append_assoc, List.cons_append, List.nil_append]

/-- **The command reaches the child unchanged.** A command that the command line accepts is written
without an error, and the runner reads exactly the bytes that were written and gets it back with
the size and the trace flag; the child's command line gives it back as well. And whatever the
runner accepts begins with what the launcher writes for it, and is within the bounds. -/
theorem command_delivered :
    (∀ arguments session trace command rows columns,
      parse arguments = .ok (.session session trace command) →
      (1 ≤ rows ∧ rows ≤ maxTerminalDimension) → (1 ≤ columns ∧ columns ≤ maxTerminalDimension) →
        (writeStartupConfig { trace, command, rows, columns }).2 = .ok () ∧
        (∀ rest, readConfig ((writeStartupConfig { trace, command, rows, columns }).1 ++ rest) =
          .ok ({ trace, command, rows, columns }, rest)) ∧
        (command ≠ [] → parse (ascii "__child" :: command) = .ok (.hiddenChild command))) ∧
    ∀ input rest config, readConfig input = .ok (config, rest) →
      (writeStartupConfig config).2 = .ok () ∧ input = (writeStartupConfig config).1 ++ rest ∧
        config.command.length ≤ maxCommandArguments ∧
        (config.command.map List.length).sum ≤ maxCommandBytes := by
  constructor
  · intro arguments session trace command rows columns hparse hrows hcolumns
    obtain ⟨hcount, hbytes⟩ := parse_session hparse
    have hvalid : StartupConfig.Valid { trace, command, rows, columns } :=
      ⟨hcount, hbytes, hrows, hcolumns⟩
    refine ⟨writeStartupConfig_ok hvalid, readConfig_writeStartupConfig hvalid, fun hne => ?_⟩
    exact parse_child hne hcount hbytes
  · intro input rest config h
    obtain ⟨hvalid, hinput⟩ := readConfig_ok h
    exact ⟨writeStartupConfig_ok hvalid, hinput, hvalid.count_le, hvalid.bytes_le⟩

/-- The child of `afk session ID -- --` is started with `--`. -/
theorem command_delivered_separator :
    parse (ascii "__child" :: [ascii "--"]) = .ok (.hiddenChild [ascii "--"]) := by
  have hparse : parse [ascii "session", ascii "00112233445566778899aabbccddeeff", ascii "--",
      ascii "--"] = .ok (.session ⟨[0x00, 0x11, 0x22, 0x33, 0x44, 0x55, 0x66, 0x77, 0x88, 0x99,
        0xaa, 0xbb, 0xcc, 0xdd, 0xee, 0xff], rfl⟩ false [ascii "--"]) := by
    decide +kernel
  exact (command_delivered.1 _ _ _ _ 24 80 hparse (by decide) (by decide)).2.2 (by decide)

end AfkCli
