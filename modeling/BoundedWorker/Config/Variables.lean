import BoundedWorker.Config.Basic
import BoundedWorker.Text.Blank

/-!
Configuration from named variables. Each variable sets one field and is read on its own; fields
whose variable is not set keep their defaults.
-/

namespace BoundedWorker

abbrev Variables := String → Option String

namespace Config

def set (vars : Variables) (name : String) (f : Config → String → Except Fault Config)
    (c : Config) : Except Fault Config :=
  match vars name with
  | none => .ok c
  | some raw => f c raw

def setMaxConcurrentTasks (c : Config) (raw : String) : Except Fault Config :=
  match Decimal.readNatural (Nat.pow 2 64) (trimText raw) with
  | .ok n => .ok { c with maxConcurrentTasks := UInt64.ofNat n }
  | .error fault => .error (.maxConcurrentTasks fault)

def setTimeout (c : Config) (raw : String) : Except Fault Config :=
  match Decimal.readFloat (trimText raw) with
  | .ok x => .ok { c with timeoutSecs := x }
  | .error fault => .error (.timeout fault)

def setLimits (c : Config) (raw : String) : Except Fault Config :=
  match readText Profile.read raw with
  | .ok p => .ok { c with limits := p }
  | .error fault => .error (.limits fault)

def setReporter (c : Config) (raw : String) : Except Fault Config :=
  let name := trimText raw
  match Table.lookup name BaseReporter.names with
  | some b => .ok { c with reporter := { c.reporter with base := b } }
  | none => .error (.reporter name)

def isYes (raw : String) : Bool := ["1", "true", "yes"].contains (trimText raw)

def setNodeMetadata (c : Config) (raw : String) : Except Fault Config :=
  if isYes raw then .ok { c with reporter := { c.reporter with nodeNames := some .none } }
  else .ok c

def ofVariables (freshId : String) (vars : Variables) : Except Fault Config := do
  let c ← set vars "WORKER_ID" (fun c raw => .ok { c with workerId := raw }) (standard freshId)
  let c ← set vars "WORKER_MAX_CONCURRENT_TASKS" setMaxConcurrentTasks c
  let c ← set vars "WORKER_TASK_TIMEOUT_SECS" setTimeout c
  let c ← set vars "WORKER_RESOURCE_LIMITS" setLimits c
  let c ← set vars "WORKER_TASK_QUEUE_ENDPOINT" (fun c raw => .ok { c with endpoint := raw }) c
  let c ← set vars "WORKER_REPORTER" setReporter c
  let c ← set vars "WORKER_NODE_METADATA" setNodeMetadata c
  c.check

end Config

end BoundedWorker
