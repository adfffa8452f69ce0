import BoundedWorker.Config.Basic
import BoundedWorker.Message
import BoundedWorker.Registry
import BoundedWorker.Reporter
import BoundedWorker.Snapshot
import BoundedWorker.Task.Outcome

/-!
The state of a worker. A submission that passes the checks holds a reservation: its resources are
committed and its identifier is registered. It waits for one of the slots if none is free, and
becomes an execution once it has one. An execution that has ended gives everything back, and only
then is its result reported. A shutdown waits for executions, for reports, and for submissions that
still hold a reservation.

Calls are numbered as they arrive. An execution has the number of the submission that led to it.
-/

namespace BoundedWorker

/-- A submission with a reservation that waits for a slot, or that has been given one and has not
taken its turn since. -/
structure Waiter where
  call : Token
  request : TaskRequest
  granted : Bool

structure Execution where
  token : Token
  request : TaskRequest
  started : Bool

inductive DrainStage where
  | executions
  | reservations
deriving DecidableEq

structure Drain where
  call : Token
  cancelled : Nat
  stage : DrainStage
  woken : Bool

structure Worker where
  config : Config
  ledger : Ledger
  registry : Registry
  accepting : Bool
  freeSlots : Nat
  slotsClosed : Bool
  /-- All executions are cancelled, those that have ended too. -/
  stopped : Bool
  cancelled : List Token
  totals : Totals
  calls : Nat
  waiters : List Waiter
  running : List Execution
  reporting : List Token
  drains : List Drain
  dropped : Bool

namespace Worker

def start (meter : Meter) (config : Config) : Except Refusal Worker :=
  match config.validate with
  | .error fault => .error (.invalidConfig fault.message)
  | .ok () => .ok {
      config
      ledger := .new meter config.limits
      registry := .empty
      accepting := true
      freeSlots := config.maxConcurrentTasks.toNat
      slotsClosed := false
      stopped := false
      cancelled := []
      totals := .zero
      calls := 0
      waiters := []
      running := []
      reporting := []
      drains := []
      dropped := false }

def build (meter : Meter) (vars : Variables) (config : Config) :
    Except Refusal (Worker × Reporter (List LogRecord)) :=
  (start meter config).map fun w => (w, config.reporter.reporter vars)

def id (w : Worker) : String := w.config.workerId

def isCancelled (w : Worker) (t : Token) : Bool := w.stopped || w.cancelled.contains t

def status? (w : Worker) (now : Nat) (taskId : String) : Option TaskStatus :=
  w.registry.status? now taskId

def snapshot (w : Worker) : Snapshot :=
  .new w.ledger.profile w.ledger.limitProfile w.registry.activeCount w.registry.waitingCount
    w.totals

def isShuttingDown (w : Worker) : Bool := !w.accepting

def health (w : Worker) : Health := ⟨!w.isShuttingDown, w.id⟩

def executionsDone (w : Worker) : Bool := w.running.isEmpty && w.reporting.isEmpty

def hasCallers (w : Worker) : Bool := !w.waiters.isEmpty || !w.drains.isEmpty

end Worker

end BoundedWorker
