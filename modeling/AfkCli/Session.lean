import AfkCli.Attach
import AfkCli.Runner

/-!
# Sessions

`afk session`: join a session, or start it when nothing is recorded under its ID.

## Main definitions

* `connectOrStart`
-/

namespace AfkCli

open Interaction

/-- "recorded session runner is unavailable" -/
def runnerUnavailable : IoError :=
  IoError.new .connectionAborted "recorded session runner is unavailable"

/-- Start a session's runner and join it; a runner that another call started will do. -/
def startSession (serde : Serde) (self : Self) (session : SessionId) (trace : Bool)
    (command : List Bytes) : Io ProcessExit := do
  let (rows, columns) ← windowSizeOrDefault
  match ← attempt (launchRunner session { trace, command, rows, columns }) with
  | .ok () => attach serde self session trace
  | .error error =>
    if error.kind = .alreadyExists then attach serde self session trace else throw error

/-- Join a session or start it. A live record whose runner cannot be reached is ambiguous: the
call fails instead of replacing a session that the caller meant to resume. -/
def connectOrStart (serde : Serde) (self : Self) (session : SessionId) (trace : Bool)
    (command : List Bytes) : Io ProcessExit := do
  match ← attempt (attach serde self session trace) with
  | .ok status => return status
  | .error connectError =>
    if connectError.kind ≠ .notFound ∧ connectError.kind ≠ .connectionRefused then
      throw connectError
    else
      let registry ← openRegistry serde self
      match ← registry.readMetadata session with
      | some _ => throw runnerUnavailable
      | none => startSession serde self session trace command

end AfkCli
