import BoundedWorker.Config.Variables
import BoundedWorker.Task.Result

/-!
Reporters receive results. A base reporter logs them, drops them or keeps them; a decorated one adds
the place where the task ran and passes the result on, with the answer of the reporter inside.
-/

namespace BoundedWorker

inductive ReportFault where
  | network (reason : String)
  | rejected (reason : String)

def ReportFault.message : ReportFault → String
  | network reason => s!"network error: {reason}"
  | rejected reason => s!"result rejected: {reason}"

abbrev Reporter (σ : Type) := TaskResult → σ → Except ReportFault Unit × σ

structure Place where
  node : String
  pod : String

namespace Place

def unnamed : String := "local"

/-- A variable that is empty counts as not set. -/
def nameOf (vars : Variables) (name : String) : String :=
  match vars name with
  | some s => if s.isEmpty then unnamed else s
  | none => unnamed

def ofVariables (vars : Variables) : Place :=
  ⟨nameOf vars "K8S_NODE_NAME", nameOf vars "K8S_POD_NAME"⟩

def ofNames (names : NodeNames) (vars : Variables) : Place :=
  let place := ofVariables vars
  ⟨names.node.getD place.node, names.pod.getD place.pod⟩

def taskLocation (p : Place) (taskId : String) : String :=
  s!"k8s://{p.node}/{p.pod}/tasks/{taskId}"

end Place

def defaultLogFilter : String := "prometheus_task_worker=info"

inductive LogRecord where
  | success (taskId metrics artifacts : String)
  | failure (taskId error artifacts : String)

def LogRecord.message : String := "task result"

def LogRecord.ofResult (r : TaskResult) : LogRecord :=
  let artifacts := "[" ++ ", ".intercalate (r.artifacts.map quoted) ++ "]"
  if r.success then .success r.taskId r.metrics.diagnosis artifacts
  else .failure r.taskId (r.error?.getD "unknown") artifacts

namespace Reporter

variable {σ : Type}

def log : Reporter (List LogRecord) := fun r records => (.ok (), records ++ [.ofResult r])

def discard : Reporter σ := fun _ s => (.ok (), s)

def memory : Reporter (List TaskResult) := fun r results => (.ok (), results ++ [r])

def resultsFor (results : List TaskResult) (taskId : String) : List TaskResult :=
  results.filter fun r => r.taskId = taskId

def withPlace (inner : Reporter σ) (p : Place) : Reporter σ := fun r =>
  inner (r.withArtifact (p.taskLocation r.taskId))

end Reporter

namespace ReporterConfig

def place? (c : ReporterConfig) (vars : Variables) : Option Place :=
  c.nodeNames.map fun names => Place.ofNames names vars

def decorate {σ : Type} (c : ReporterConfig) (vars : Variables) (base : Reporter σ) : Reporter σ :=
  match c.place? vars with
  | some p => base.withPlace p
  | none => base

def reporter (c : ReporterConfig) (vars : Variables) : Reporter (List LogRecord) :=
  c.decorate vars (match c.base with
    | .log => Reporter.log
    | .discard => Reporter.discard)

end ReporterConfig

end BoundedWorker
