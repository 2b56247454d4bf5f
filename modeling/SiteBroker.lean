import SiteBroker.Broker
import SiteBroker.CommandLine
import SiteBroker.Desk
import SiteBroker.Docket
import SiteBroker.Double
import SiteBroker.Double.Reader
import SiteBroker.Double.Shortest
import SiteBroker.Error
import SiteBroker.FieldRule
import SiteBroker.Fields
import SiteBroker.FileTree
import SiteBroker.Http
import SiteBroker.Http.Url
import SiteBroker.Instant
import SiteBroker.Instant.Calendar
import SiteBroker.Instant.Text
import SiteBroker.Job
import SiteBroker.Json
import SiteBroker.Json.Decode
import SiteBroker.Json.Number
import SiteBroker.Json.Parser
import SiteBroker.Json.Printer
import SiteBroker.Main
import SiteBroker.Office
import SiteBroker.Operation
import SiteBroker.Packet
import SiteBroker.Packet.Wire
import SiteBroker.PacketType
import SiteBroker.Progress
import SiteBroker.Progress.Wire
import SiteBroker.Proofs.Along
import SiteBroker.Proofs.Answers
import SiteBroker.Proofs.Arrivals
import SiteBroker.Proofs.Asking
import SiteBroker.Proofs.Attending
import SiteBroker.Proofs.Broker
import SiteBroker.Proofs.Calls
import SiteBroker.Proofs.Clock
import SiteBroker.Proofs.Course
import SiteBroker.Proofs.Demands
import SiteBroker.Proofs.Desk
import SiteBroker.Proofs.Digits
import SiteBroker.Proofs.Docket
import SiteBroker.Proofs.Dropping
import SiteBroker.Proofs.Due
import SiteBroker.Proofs.Echo
import SiteBroker.Proofs.Errand
import SiteBroker.Proofs.Failing
import SiteBroker.Proofs.Fields
import SiteBroker.Proofs.Gaining
import SiteBroker.Proofs.GivingUp
import SiteBroker.Proofs.Held
import SiteBroker.Proofs.History
import SiteBroker.Proofs.History.Broker
import SiteBroker.Proofs.History.Desk
import SiteBroker.Proofs.Holding
import SiteBroker.Proofs.Instant
import SiteBroker.Proofs.Instant.Calendar
import SiteBroker.Proofs.Instant.Text
import SiteBroker.Proofs.Lasting
import SiteBroker.Proofs.Ledger
import SiteBroker.Proofs.Legible
import SiteBroker.Proofs.Listing
import SiteBroker.Proofs.Milestones
import SiteBroker.Proofs.Mirror
import SiteBroker.Proofs.Numeral
import SiteBroker.Proofs.Outcomes
import SiteBroker.Proofs.Pass
import SiteBroker.Proofs.Polling
import SiteBroker.Proofs.Program
import SiteBroker.Proofs.Progress
import SiteBroker.Proofs.Provenance
import SiteBroker.Proofs.Ramp
import SiteBroker.Proofs.Rebuilding
import SiteBroker.Proofs.Recall
import SiteBroker.Proofs.Record
import SiteBroker.Proofs.Redelivery
import SiteBroker.Proofs.Reflection
import SiteBroker.Proofs.Register
import SiteBroker.Proofs.Rejection
import SiteBroker.Proofs.Remembering
import SiteBroker.Proofs.Reply
import SiteBroker.Proofs.Request
import SiteBroker.Proofs.Resending
import SiteBroker.Proofs.Resumption
import SiteBroker.Proofs.Retry
import SiteBroker.Proofs.Role
import SiteBroker.Proofs.Round
import SiteBroker.Proofs.Snapshot
import SiteBroker.Proofs.Snapshot.Files
import SiteBroker.Proofs.Snapshot.Keys
import SiteBroker.Proofs.Snapshot.Lifetime
import SiteBroker.Proofs.Snapshot.Places
import SiteBroker.Proofs.Snapshot.Records
import SiteBroker.Proofs.Sorting
import SiteBroker.Proofs.Split
import SiteBroker.Proofs.Step
import SiteBroker.Proofs.Submission
import SiteBroker.Proofs.Success
import SiteBroker.Proofs.Sufficing
import SiteBroker.Proofs.Supply
import SiteBroker.Proofs.Task
import SiteBroker.Proofs.Task.Wire
import SiteBroker.Proofs.TaskList
import SiteBroker.Proofs.TaskList.Merging
import SiteBroker.Proofs.Thrift
import SiteBroker.Proofs.Timestamp
import SiteBroker.Proofs.Tracing
import SiteBroker.Proofs.Trail
import SiteBroker.Proofs.Transaction
import SiteBroker.Proofs.Transaction.Arrivals
import SiteBroker.Proofs.Transaction.Packets
import SiteBroker.Proofs.Transaction.Sheet
import SiteBroker.Proofs.Transaction.Tasks
import SiteBroker.Proofs.TransactionId
import SiteBroker.Proofs.Turn
import SiteBroker.Proofs.Waiting
import SiteBroker.Proofs.Wire
import SiteBroker.Proofs.Workflow
import SiteBroker.Rehearsal
import SiteBroker.Request
import SiteBroker.Retry
import SiteBroker.Role
import SiteBroker.Session
import SiteBroker.Settings
import SiteBroker.Settings.Format
import SiteBroker.Settings.Wire
import SiteBroker.Snapshot
import SiteBroker.Snapshot.Folder
import SiteBroker.Startup
import SiteBroker.Step
import SiteBroker.Task
import SiteBroker.Task.Wire
import SiteBroker.TaskList
import SiteBroker.Text.Blank
import SiteBroker.Text.Digits
import SiteBroker.Text.Lowercase
import SiteBroker.Timer
import SiteBroker.Transaction
import SiteBroker.TransactionId
import SiteBroker.Workflow
import SiteBroker.Workflow.Milestones
import SiteBroker.World
import SiteBroker.World.Wire
import SiteBroker.Yaml
import SiteBroker.Yaml.Reader
import SiteBroker.Yaml.Token
