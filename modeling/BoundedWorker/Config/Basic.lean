import BoundedWorker.Resources.Profile
import BoundedWorker.Json.Printer
import BoundedWorker.Duration

/-!
The configuration of a worker: how many tasks run at a time, for how long, and within which limits.
A configuration is read from JSON text and then validated; a worker starts only from a valid one.
-/

namespace BoundedWorker

inductive BaseReporter where
  | log
  | discard
deriving DecidableEq

structure NodeNames where
  node : Option String
  pod : Option String

structure ReporterConfig where
  base : BaseReporter
  nodeNames : Option NodeNames

structure Config where
  workerId : String
  maxConcurrentTasks : UInt64
  timeoutSecs : Float
  limits : Profile
  endpoint : String
  reporter : ReporterConfig

def jsonOfOption {α : Type} (f : α → Json) (o : Option α) : Json := (o.map f).getD .null

namespace BaseReporter

def names : List (String × BaseReporter) := [("log", .log), ("discard", .discard)]

def name : BaseReporter → String
  | log => "log"
  | discard => "discard"

end BaseReporter

namespace NodeNames

def none : NodeNames := ⟨.none, .none⟩

def toJson (c : NodeNames) : Json :=
  .object [("node_name", jsonOfOption .string c.node), ("pod_name", jsonOfOption .string c.pod)]

def record : Record NodeNames where
  title := "struct NodeMetadataConfig"
  fields := [
    ⟨"node_name", false, fun c n => do
      return { c with node := ← n.readOption Node.readString }⟩,
    ⟨"pod_name", false, fun c n => do return { c with pod := ← n.readOption Node.readString }⟩]

end NodeNames

namespace ReporterConfig

def standard : ReporterConfig := ⟨.log, .none⟩

def toJson (c : ReporterConfig) : Json :=
  .object [("base", .string c.base.name),
    ("node_metadata", jsonOfOption NodeNames.toJson c.nodeNames)]

def record : Record ReporterConfig where
  title := "struct ReporterConfig"
  fields := [
    ⟨"base", false, fun c n => do return { c with base := ← n.readName BaseReporter.names }⟩,
    ⟨"node_metadata", false, fun c n => do
      let names ← n.readOption (NodeNames.record.read .text NodeNames.none)
      return { c with nodeNames := names }⟩]

def read (n : Node) : ReadResult ReporterConfig := record.read .text standard n

end ReporterConfig

namespace Config

def standard (freshId : String) : Config where
  workerId := freshId
  maxConcurrentTasks := 5
  timeoutSecs := 300
  limits := Table.ofList [(Profile.cpu, 2), (Profile.memory, 8)]
  endpoint := "http://task-queue:8000"
  reporter := .standard

/-- The most slots that can be counted. -/
def slotsMax : UInt64 := 2305843009213693951

inductive Invalid where
  | noSlots
  | tooManySlots
  | timeout (secs : Float)
  | limits (fault : Profile.LimitFault)

def Invalid.message : Invalid → String
  | noSlots => "max_concurrent_tasks must be greater than 0"
  | tooManySlots => s!"max_concurrent_tasks must be at most {slotsMax}"
  | timeout secs => "task_timeout_secs must be a positive, representable number of seconds, "
      ++ s!"got {Decimal.Layout.plain.write secs}"
  | limits fault => fault.message

/-- The time limit of a task. What is no span of time counts as the longest one. -/
def timeout (c : Config) : Duration := (Duration.ofSeconds? c.timeoutSecs).getD .longest

def withTimeout (c : Config) (d : Duration) : Config := { c with timeoutSecs := d.toSeconds }

def hasTimeout (c : Config) : Bool :=
  match Duration.ofSeconds? c.timeoutSecs with
  | some d => !d.isZero
  | none => false

def validate (c : Config) : Except Invalid Unit :=
  if c.maxConcurrentTasks = 0 then .error .noSlots
  else if slotsMax < c.maxConcurrentTasks then .error .tooManySlots
  else if !c.hasTimeout then .error (.timeout c.timeoutSecs)
  else match c.limits.checkLimits with
    | .error fault => .error (.limits fault)
    | .ok () => .ok ()

def toJson (c : Config) : Json :=
  .object [("worker_id", .string c.workerId),
    ("max_concurrent_tasks", Json.ofNat c.maxConcurrentTasks.toNat),
    ("task_timeout_secs", Json.ofFloat c.timeoutSecs), ("resource_limits", c.limits.toJson),
    ("task_queue_endpoint", .string c.endpoint), ("reporter", c.reporter.toJson)]

def record : Record Config where
  title := "struct WorkerConfig"
  fields := [
    ⟨"worker_id", false, fun c n => do return { c with workerId := ← n.readString }⟩,
    ⟨"max_concurrent_tasks", false, fun c n => do
      return { c with maxConcurrentTasks := ← n.readUInt64 "usize" }⟩,
    ⟨"task_timeout_secs", false, fun c n => do return { c with timeoutSecs := ← n.readFloat }⟩,
    ⟨"resource_limits", false, fun c n => do return { c with limits := ← Profile.read n }⟩,
    ⟨"task_queue_endpoint", false, fun c n => do return { c with endpoint := ← n.readString }⟩,
    ⟨"reporter", false, fun c n => do return { c with reporter := ← ReporterConfig.read n }⟩]

def read (freshId : String) (n : Node) : ReadResult Config := record.read .text (standard freshId) n

inductive Fault where
  | text (fault : ReadFault)
  | maxConcurrentTasks (fault : Decimal.NaturalFault)
  | timeout (fault : Decimal.FloatFault)
  | limits (fault : ReadFault)
  | reporter (name : String)
  | invalid (fault : Invalid)

def Fault.message : Fault → String
  | text fault => s!"parse error: {fault.message}"
  | maxConcurrentTasks fault => s!"WORKER_MAX_CONCURRENT_TASKS: {fault.message}"
  | timeout fault => s!"WORKER_TASK_TIMEOUT_SECS: {fault.message}"
  | limits fault => s!"WORKER_RESOURCE_LIMITS: {fault.message}"
  | reporter name => s!"WORKER_REPORTER: unknown reporter `{name}`"
  | invalid fault => fault.message

def check (c : Config) : Except Fault Config :=
  match c.validate with
  | .error fault => .error (.invalid fault)
  | .ok () => .ok c

def ofText (freshId text : String) : Except Fault Config :=
  match readText (read freshId) text with
  | .error fault => .error (.text fault)
  | .ok c => c.check

end Config

end BoundedWorker
