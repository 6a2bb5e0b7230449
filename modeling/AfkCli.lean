import AfkCli.Interaction.Program
import AfkCli.Interaction.Interleaving
import AfkCli.Interaction.Log
import AfkCli.Interaction.History
import AfkCli.Interaction.Monitor
import AfkCli.Interaction.Framing
import AfkCli.Limits
import AfkCli.Identity
import AfkCli.OutputTail
import AfkCli.ByteQueue
import AfkCli.Ipc
import AfkCli.Codec
import AfkCli.Cli
import AfkCli.Grammar
import AfkCli.System
import AfkCli.Registry
import AfkCli.Json
import AfkCli.Trace
import AfkCli.Platform
import AfkCli.Flush
import AfkCli.Startup
import AfkCli.Delivery
import AfkCli.Runner
import AfkCli.Attach
import AfkCli.Session
import AfkCli.Kernel
import AfkCli.Effect
import AfkCli.Hoare
import AfkCli.Calls
import AfkCli.Exclusion
import AfkCli.LoopLog
import AfkCli.Queueing
import AfkCli.Hub
import AfkCli.Serving
import AfkCli.Footprint
import AfkCli.Completion
import AfkCli.Provenance
import AfkCli.Containment
import AfkCli.Fidelity
import AfkCli.Rejection
import AfkCli.Farewell
import AfkCli.Tracing
import AfkCli.Alone
import AfkCli.Records
import AfkCli.Listing
import AfkCli.Cleaning
import AfkCli.Presence
import AfkCli.Starting
import AfkCli.Failure
import AfkCli.Conflict
import AfkCli.Surface
import AfkCli.Collision
import AfkCli.Lifecycle
import AfkCli.Entry
import AfkCli.Commands
import AfkCli.Custody
import AfkCli.Peers
import AfkCli.Relay
import AfkCli.EndToEnd
import AfkCli.Store
import AfkCli.Replay
