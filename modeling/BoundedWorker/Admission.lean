import BoundedWorker.Resources.Ledger
import BoundedWorker.Task.Request

/-!
Answers to submissions. A refusal has a code for machines and a text for people; the response to the
transport carries both, or the identifier of the task that was admitted.
-/

namespace BoundedWorker

inductive Refusal where
  | insufficientResources (shortfall : Shortfall)
  | duplicateTask (taskId : String)
  | deadlineExpired
  | invalidRequest (reason : String)
  | shuttingDown
  | invalidConfig (reason : String)

namespace Refusal

def code : Refusal → String
  | insufficientResources _ => "insufficient_resources"
  | duplicateTask _ => "duplicate_task"
  | deadlineExpired => "deadline_expired"
  | invalidRequest _ => "invalid_request"
  | shuttingDown => "shutting_down"
  | invalidConfig _ => "invalid_configuration"

def message : Refusal → String
  | insufficientResources s =>
    s!"insufficient_resources: {s.kind} requested {Decimal.Layout.plain.write s.requested}, "
      ++ s!"available {Decimal.Layout.plain.write s.available}"
  | duplicateTask taskId => s!"duplicate task id: {taskId}"
  | deadlineExpired => "deadline expired"
  | invalidRequest reason => s!"invalid request: {reason}"
  | shuttingDown => "worker is shutting down"
  | invalidConfig reason => s!"invalid configuration: {reason}"

def isRejection : Refusal → Bool
  | invalidConfig _ => false
  | _ => true

end Refusal

abbrev Answer := Except Refusal String

inductive AdmissionStatus where
  | queued
  | unhandledMessageType
deriving DecidableEq

namespace AdmissionStatus

def names : List (String × AdmissionStatus) :=
  [("queued", .queued), ("unhandled_message_type", .unhandledMessageType)]

def name : AdmissionStatus → String
  | queued => "queued"
  | unhandledMessageType => "unhandled_message_type"

def toJson (s : AdmissionStatus) : Json := .string s.name

def read (n : Node) : ReadResult AdmissionStatus := n.readName names

end AdmissionStatus

inductive AdmissionResponse where
  | accepted (taskId : String) (status : AdmissionStatus)
  | rejected (error detail : String)
  | unhandled (status : AdmissionStatus)

namespace AdmissionResponse

def ofRefusal (r : Refusal) : AdmissionResponse := rejected r.code r.message

def ofAnswer : Answer → AdmissionResponse
  | .ok taskId => accepted taskId .queued
  | .error r => ofRefusal r

def errorCode? : AdmissionResponse → Option String
  | rejected error _ => some error
  | _ => none

def taskId? : AdmissionResponse → Option String
  | accepted taskId _ => some taskId
  | _ => none

def toJson : AdmissionResponse → Json
  | accepted taskId status =>
    .object [("task_id", .string taskId), ("status", status.toJson)]
  | rejected error detail => .object [("error", .string error), ("detail", .string detail)]
  | unhandled status => .object [("status", status.toJson)]

def acceptedRecord : Record (String × AdmissionStatus) where
  title := "struct variant AdmissionResponse::Accepted"
  fields := [
    ⟨"task_id", true, fun r n => do return (← n.readString, r.2)⟩,
    ⟨"status", true, fun r n => do return (r.1, ← AdmissionStatus.read n)⟩]

def rejectedRecord : Record (String × String) where
  title := "struct variant AdmissionResponse::Rejected"
  fields := [
    ⟨"error", true, fun r n => do return (← n.readString, r.2)⟩,
    ⟨"detail", true, fun r n => do return (r.1, ← n.readString)⟩]

def unhandledRecord : Record AdmissionStatus where
  title := "struct variant AdmissionResponse::Unhandled"
  fields := [⟨"status", true, fun _ n => AdmissionStatus.read n⟩]

/-- The first variant, in the order of their declaration, whose fields are all there. -/
def ofMembers? (members : List (Option String × Node)) : Option AdmissionResponse :=
  match acceptedRecord.readMembers true [] ("", .queued) members with
  | .ok (taskId, status) => some (accepted taskId status)
  | .error _ =>
    match rejectedRecord.readMembers true [] ("", "") members with
    | .ok (error, detail) => some (rejected error detail)
    | .error _ =>
      match unhandledRecord.readMembers true [] .queued members with
      | .ok status => some (unhandled status)
      | .error _ => none

/-- The value is read to its end before the variants are tried. Only objects fit any. -/
def read (n : Node) : ReadResult AdmissionResponse := do
  let response := match Node.ofJson (← n.readJson nestingLimit) with
    | .object members _ => ofMembers? members
    | _ => none
  match response with
  | some r => return r
  | none => .error (.noVariant "AdmissionResponse")

end AdmissionResponse

end BoundedWorker
