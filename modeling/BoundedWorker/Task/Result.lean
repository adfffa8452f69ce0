import BoundedWorker.Task.Metric
import BoundedWorker.Task.Failure

/-!
Results: what is reported about one attempt at a task. A failure is described by the text metric
`error`; the wall time is the metric `duration`.
-/

namespace BoundedWorker

structure TaskResult where
  taskId : String
  success : Bool
  metrics : Metrics
  artifacts : List String

namespace TaskResult

def errorMetric : String := "error"

def durationMetric : String := "duration"

def succeeded (taskId : String) (metrics : Metrics) : TaskResult := ⟨taskId, true, metrics, []⟩

def failed (taskId : String) (failure : Failure) : TaskResult :=
  ⟨taskId, false, Table.empty.insert errorMetric (.text failure.message), []⟩

def withMetric (r : TaskResult) (name : String) (m : Metric) : TaskResult :=
  { r with metrics := r.metrics.insert name m }

def withArtifact (r : TaskResult) (location : String) : TaskResult :=
  { r with artifacts := r.artifacts ++ [location] }

def error? (r : TaskResult) : Option String := (r.metrics.get? errorMetric).bind Metric.text?

def toJson (r : TaskResult) : Json :=
  .object [("task_id", .string r.taskId), ("success", .bool r.success),
    ("metrics", r.metrics.toJson), ("artifacts", .array (r.artifacts.map .string))]

def record : Record TaskResult where
  title := "struct TaskResult"
  fields := [
    ⟨"task_id", true, fun r n => do return { r with taskId := ← n.readString }⟩,
    ⟨"success", true, fun r n => do return { r with success := ← n.readBool }⟩,
    ⟨"metrics", true, fun r n => do
      return { r with metrics := ← n.readTable (Metric.read (nestingLimit - 2)) }⟩,
    ⟨"artifacts", false, fun r n => do
      return { r with artifacts := ← n.readList Node.readString }⟩]

def read (n : Node) : ReadResult TaskResult := record.read .text ⟨"", false, .empty, []⟩ n

end TaskResult

end BoundedWorker
