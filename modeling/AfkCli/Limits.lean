import Mathlib.Tactic

/-!
# Limits

The fixed bounds of the program, and the byte strings they bound.

## Main definitions

* `Bytes`, `ascii`: byte strings
* the bounds of `limits.rs`
-/

namespace AfkCli

/-- A byte string: a file name, the contents of a file, terminal data. -/
abbrev Bytes := List UInt8

/-- The bytes of an ASCII literal. -/
def ascii (text : String) : Bytes := text.toList.map fun c => UInt8.ofNat c.toNat

/-- A number in decimal, as `format!` prints it. -/
def decimal (n : Nat) : Bytes := (Nat.toDigits 10 n).map fun c => UInt8.ofNat c.toNat

def ipcHeaderBytes : Nat := 5

def maxIpcPayloadBytes : Nat := 64 * 1024

def maxIpcRecordBytes : Nat := ipcHeaderBytes + maxIpcPayloadBytes

def maxAttachmentQueueBytes : Nat := 1024 * 1024

def outputTailBytes : Nat := 256 * 1024

def maxMetadataBytes : Nat := 64 * 1024

def maxTerminalDimension : UInt16 := 4096

def maxSessionListEntries : Nat := 1024

def maxCommandArguments : Nat := 256

def maxCommandBytes : Nat := 64 * 1024

def maxPtyBytesPerTick : Nat := 256 * 1024

def completedRetentionSeconds : Nat := 24 * 60 * 60

def stopGraceSeconds : Nat := 5

def unixSocketPathBytes : Nat := 103

/-- The read size of the runner and of the attachment (`runner.rs`, `attach.rs`). -/
def ioChunkBytes : Nat := 16 * 1024

end AfkCli
