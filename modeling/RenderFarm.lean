import RenderFarm.Cluster
import RenderFarm.CommandLine.Basic
import RenderFarm.CommandLine.Text
import RenderFarm.Config.Basic
import RenderFarm.Config.Decode
import RenderFarm.Config.Encode
import RenderFarm.Config.Environment
import RenderFarm.Config.Load
import RenderFarm.Config.Tree
import RenderFarm.Coordinator.Basic
import RenderFarm.Coordinator.Encode
import RenderFarm.Coordinator.Event
import RenderFarm.Coordinator.Handle
import RenderFarm.Coordinator.Server
import RenderFarm.Decimal.Shortest
import RenderFarm.Decimal.Style
import RenderFarm.Execution.Basic
import RenderFarm.Execution.Step
import RenderFarm.Failure
import RenderFarm.Fields
import RenderFarm.Fleet
import RenderFarm.Http.Response
import RenderFarm.Http.Status
import RenderFarm.Http.Target
import RenderFarm.Json.Basic
import RenderFarm.Json.Decode
import RenderFarm.Json.Draft
import RenderFarm.Json.Fault
import RenderFarm.Json.Printer
import RenderFarm.Json.Reader
import RenderFarm.Listener
import RenderFarm.Main
import RenderFarm.Name
import RenderFarm.OrderedMap
import RenderFarm.Rehearsal
import RenderFarm.Retry
import RenderFarm.Schedule
import RenderFarm.Service
import RenderFarm.Session
import RenderFarm.Task
import RenderFarm.Telemetry.Basic
import RenderFarm.Telemetry.Filter
import RenderFarm.Text.Blank
import RenderFarm.Text.Letter
import RenderFarm.Text.Pattern.Basic
import RenderFarm.Text.Pattern.Parser
import RenderFarm.Text.Quoted
import RenderFarm.Text.Split
import RenderFarm.Text.Unprintable
import RenderFarm.Toml.Document
import RenderFarm.Toml.Moment
import RenderFarm.Toml.Number
import RenderFarm.Toml.Parser
import RenderFarm.Toml.Text
import RenderFarm.Transport
import RenderFarm.Wire.Decode
import RenderFarm.Wire.Encode
import RenderFarm.Wire.Frame
import RenderFarm.Wire.Message
import RenderFarm.Word
import RenderFarm.Worker
import RenderFarm.Proofs.Execution.Calls
import RenderFarm.Proofs.Execution.Issuing
import RenderFarm.Proofs.Execution.Accounts
import RenderFarm.Proofs.Execution.Holdings
import RenderFarm.Proofs.Execution.Records
import RenderFarm.Proofs.Execution.Conservation
import RenderFarm.Proofs.Execution.Termination
import RenderFarm.Proofs.Execution.Leaves
import RenderFarm.Proofs.Execution.Provenance
import RenderFarm.Proofs.Schedule
import RenderFarm.Proofs.Execution.Actions
import RenderFarm.Proofs.Coordinator.Tasks
import RenderFarm.Proofs.Coordinator.Reactions
import RenderFarm.Proofs.Coordinator.Agreement
import RenderFarm.Proofs.Fleet
import RenderFarm.Proofs.Schedule.Flights
import RenderFarm.Proofs.Schedule.Crew
import RenderFarm.Proofs.Coordinator.Telling
import RenderFarm.Proofs.Coordinator.Opening
import RenderFarm.Proofs.Coordinator.Runs
import RenderFarm.Proofs.Coordinator.Occupancy
import RenderFarm.Proofs.Coordinator.Lateness
import RenderFarm.Proofs.Coordinator.Commands
import RenderFarm.Proofs.Coordinator.Staffing
import RenderFarm.Proofs.Execution.Groups
import RenderFarm.Proofs.Coordinator.Payloads
import RenderFarm.Proofs.Coordinator.Backing
import RenderFarm.Proofs.Coordinator.WorkConserving
import RenderFarm.Proofs.Schedule.Conservation
import RenderFarm.Proofs.Execution.Ending
import RenderFarm.Proofs.Coordinator.Probes
import RenderFarm.Proofs.Coordinator.Timers
import RenderFarm.Proofs.Fleet.Rounds
import RenderFarm.Proofs.Fleet.Condemnation
import RenderFarm.Proofs.Schedule.Tasks
import RenderFarm.Proofs.Execution.Timeouts
import RenderFarm.Proofs.Coordinator.Revisions
import RenderFarm.Proofs.Coordinator.Preparation
import RenderFarm.Proofs.Coordinator.Timeouts
import RenderFarm.Proofs.Coordinator.Scenes
import RenderFarm.Proofs.Execution.Phases
import RenderFarm.Proofs.Schedule.Lines
import RenderFarm.Proofs.Fleet.Caches
import RenderFarm.Proofs.Coordinator.Caches
import RenderFarm.Proofs.Coordinator.Whereabouts
import RenderFarm.Proofs.Json.Values
import RenderFarm.Proofs.Json.Decoding
import RenderFarm.Proofs.Wire.RoundTrip
import RenderFarm.Proofs.Wire.Lines
import RenderFarm.Proofs.Coordinator.Conversation
import RenderFarm.Proofs.Fleet.Holders
import RenderFarm.Proofs.Coordinator.Deletions
import RenderFarm.Proofs.Schedule.Shares
import RenderFarm.Proofs.Coordinator.Separation
import RenderFarm.Proofs.Execution.Elapsed
import RenderFarm.Proofs.Execution.Counters
import RenderFarm.Proofs.Coordinator.Expiry
import RenderFarm.Proofs.Coordinator.Issued
import RenderFarm.Proofs.Coordinator.Names
import RenderFarm.Proofs.Schedule.Pool
import RenderFarm.Proofs.Fleet.Reconciliation
import RenderFarm.Proofs.Execution.Production
import RenderFarm.Proofs.Execution.Tries
import RenderFarm.Proofs.Execution.Batches
import RenderFarm.Proofs.Fleet.Reports
import RenderFarm.Proofs.Fleet.Turns
import RenderFarm.Proofs.Schedule.Affinity
import RenderFarm.Proofs.Schedule.Tickets
import RenderFarm.Proofs.Schedule.Deadlines
import RenderFarm.Proofs.Retry.Attempts
import RenderFarm.Proofs.Retry.Backoff
import RenderFarm.Proofs.Transport
import RenderFarm.Proofs.Json.Acceptance
import RenderFarm.Proofs.Wire.FinishReports
import RenderFarm.Proofs.Schedule.Exhaustion
