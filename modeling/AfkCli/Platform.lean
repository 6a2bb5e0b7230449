import AfkCli.ByteQueue
import AfkCli.System

/-!
# Terminals and streams

What the runner and the attachment share: the sizes of terminals, and sending a queue.

## Main definitions

* `validateDimensions`, `windowSize`, `setWindowSize`, `createPty`: terminals
* `flushQueue`: `ByteQueue::flush`
* `encodeRecord`: `encode`, as an operation that may fail
-/

namespace AfkCli

open Interaction

/-! ## Terminals -/

def validateDimensions (rows columns : UInt16) : Io Unit :=
  if (1 ≤ rows ∧ rows ≤ maxTerminalDimension) ∧ (1 ≤ columns ∧ columns ≤ maxTerminalDimension) then
    return ()
  else throw (IoError.new .invalidInput "terminal dimensions are outside AFK limits")

def setWindowSize (rows columns : UInt16) : Io Unit := do
  validateDimensions rows columns
  ask (process (.setWindowSize rows columns))

/-- The size of the outer terminal. -/
def windowSize : Io (UInt16 × UInt16) := do
  let (rows, columns) ← ask (terminal .windowSize)
  validateDimensions rows columns
  return (rows, columns)

/-- `window_size(..).unwrap_or((24, 80))` -/
def windowSizeOrDefault : Prog (UInt16 × UInt16) := do
  return (← windowSize.run).toOption.getD (24, 80)

def createPty (rows columns : UInt16) : Io Unit := do
  validateDimensions rows columns
  ask (process (.openpty rows columns))

/-! ## Streams -/

/-- "invalid IPC record" -/
def invalidRecord : IoError := IoError.new .invalidData "invalid IPC record"

/-- `encode`. -/
def encodeRecord (record : Record) : Except IoError Bytes :=
  match encode record with
  | some encoded => .ok encoded
  | none => .error (IoError.new .invalidInput "IPC payload too large")

/-- `ByteQueue::flush`: write until the queue is empty or the writer blocks. The writer is offered
the whole queue: a write that accepts only part of a deque's first slice accepts part of it. -/
def flushQueue (write : Bytes → Io Nat) : Nat → ByteQueue → Prog (ByteQueue × Except IoError Unit)
  | 0, _ => .spin
  | rounds + 1, queue =>
    if queue.isEmpty then return (queue, .ok ())
    else do
      match ← (write queue.bytes).run with
      | .ok 0 => return (queue, .error (IoError.new .writeZero "AFK queue write returned zero"))
      | .ok n => flushQueue write rounds (queue.written n)
      | .error error =>
        if error.kind = .wouldBlock then return (queue, .ok ())
        else if error.kind = .interrupted then flushQueue write rounds queue
        else return (queue, .error error)

def writePty (bytes : Bytes) : Io Nat := ask (process (.writePty bytes))

def writeStream (stream : Fd) (bytes : Bytes) : Io Nat := ask (socket (.write stream bytes))

end AfkCli
