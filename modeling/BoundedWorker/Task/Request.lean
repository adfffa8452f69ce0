import BoundedWorker.Resources.Profile
import BoundedWorker.Text.Blank
import BoundedWorker.Json.Printer

/-!
Requests to execute one unit of work. The payload is handed to the task body as it is; the priority
is a hint that nothing depends on.
-/

namespace BoundedWorker

structure TaskRequest where
  taskId : String
  payload : Value
  priority : Int32
  /-- Milliseconds since the epoch. -/
  deadline : Option (Fin (Nat.pow 2 128))
  required : Profile

namespace TaskRequest

def defaultRequired : Profile := Table.ofList [(Profile.cpu, 0.5), (Profile.memory, 1)]

def new (freshId : String) (payload : Value) : TaskRequest :=
  ⟨freshId, payload, 1, none, defaultRequired⟩

inductive Fault where
  | emptyId
  | requirement (fault : Profile.RequirementFault)

def Fault.message : Fault → String
  | emptyId => "task_id must not be empty"
  | requirement fault => fault.message

def validate (r : TaskRequest) : Except Fault Unit :=
  if trimText r.taskId = "" then .error .emptyId
  else match r.required.checkRequirement with
    | .error fault => .error (.requirement fault)
    | .ok () => .ok ()

def toJson (r : TaskRequest) : Json :=
  .object [("task_id", .string r.taskId), ("payload", r.payload.json),
    ("priority", Json.ofInt r.priority.toInt),
    ("deadline_ms", (r.deadline.map fun d => Json.ofNat d.val).getD .null),
    ("required_resources", r.required.toJson)]

def record (o : Origin) : Record TaskRequest where
  title := "struct TaskRequest"
  fields := [
    ⟨"task_id", false, fun r n => do return { r with taskId := ← n.readString }⟩,
    ⟨"payload", true, fun r n => do
      return { r with payload := ← n.readValue o (nestingLimit - 1) }⟩,
    ⟨"priority", false, fun r n => do return { r with priority := ← n.readInt32 }⟩,
    ⟨"deadline_ms", false, fun r n => do
      return { r with deadline := ← n.readOption (Node.readUInt128 o) }⟩,
    ⟨"required_resources", false, fun r n => do
      return { r with required := ← Profile.read n }⟩]

def read (o : Origin) (freshId : String) (n : Node) : ReadResult TaskRequest :=
  (record o).read o (new freshId .null) n

end TaskRequest

end BoundedWorker
