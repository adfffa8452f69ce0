import BoundedWorker.Table
import BoundedWorker.Text.Blank
import BoundedWorker.Decimal.Layout
import BoundedWorker.Decimal.Reading
import BoundedWorker.Text.Quoted
import BoundedWorker.Duration
import BoundedWorker.Json.Printer
import BoundedWorker.Json.Reader
import BoundedWorker.Json.Typed
import BoundedWorker.Resources.Ledger
import BoundedWorker.Task.Request
import BoundedWorker.Task.Outcome
import BoundedWorker.Registry
import BoundedWorker.Reporter
import BoundedWorker.Directory
import BoundedWorker.Message
import BoundedWorker.Worker.Step
import BoundedWorker.Host.Clock
import BoundedWorker.Proofs.Ceiling
import BoundedWorker.Proofs.Reports
import BoundedWorker.Proofs.Drains
import BoundedWorker.Proofs.Shutdown
import BoundedWorker.Proofs.Finality
import BoundedWorker.Proofs.Cancellation
import BoundedWorker.Proofs.Omission
import BoundedWorker.Proofs.Counters
import BoundedWorker.Proofs.Capacity
import BoundedWorker.Proofs.ZeroUnits
import BoundedWorker.Proofs.Commitments
import BoundedWorker.Proofs.Statuses
import BoundedWorker.Proofs.Bystanders
import BoundedWorker.Proofs.Responses
import BoundedWorker.Proofs.Results
import BoundedWorker.Proofs.Messages
import BoundedWorker.Proofs.Reencoding
import BoundedWorker.Proofs.Shortfalls
import BoundedWorker.Proofs.Configurations
import BoundedWorker.Proofs.Indifference
import BoundedWorker.Proofs.Hosts
import BoundedWorker.Proofs.Decisions
import BoundedWorker.Proofs.Attempts
import BoundedWorker.Proofs.OutcomeResults
import BoundedWorker.Proofs.Variables
import BoundedWorker.Proofs.Deliveries
