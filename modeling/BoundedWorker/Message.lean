import BoundedWorker.Admission

/-!
Messages from the transport: an envelope says what its payload is. Task requests are read from the
payload; other messages are not handled here.
-/

namespace BoundedWorker

structure AgentMessage where
  payloadType : String
  payload : Value
  sender : Option String

inductive Dispatch where
  | request (r : TaskRequest)
  | malformed (fault : ReadFault)
  | unhandled

namespace AgentMessage

def taskRequestType : String := "TaskRequest"

def toJson (m : AgentMessage) : Json :=
  .object ([("payload_type", .string m.payloadType), ("payload", m.payload.json)] ++
    (m.sender.map fun s => ("sender", Json.string s)).toList)

def record : Record AgentMessage where
  title := "struct AgentMessage"
  fields := [
    ⟨"payload_type", true, fun m n => do return { m with payloadType := ← n.readString }⟩,
    ⟨"payload", true, fun m n => do
      return { m with payload := ← n.readValue .text (nestingLimit - 1) }⟩,
    ⟨"sender", false, fun m n => do
      return { m with sender := ← n.readOption Node.readString }⟩]

def read (n : Node) : ReadResult AgentMessage := record.read .text ⟨"", .null, none⟩ n

def dispatch (m : AgentMessage) (freshId : String) : Dispatch :=
  if m.payloadType ≠ taskRequestType then .unhandled
  else match TaskRequest.read .value freshId (Node.ofJson m.payload.json) with
    | .ok r => .request r
    | .error fault => .malformed fault

end AgentMessage

def Dispatch.response? : Dispatch → Option AdmissionResponse
  | request _ => none
  | malformed fault => some (.ofRefusal (.invalidRequest fault.message))
  | unhandled => some (.unhandled .unhandledMessageType)

structure Health where
  ok : Bool
  workerId : String

namespace Health

def toJson (h : Health) : Json := .object [("ok", .bool h.ok), ("worker_id", .string h.workerId)]

def record : Record Health where
  title := "struct Health"
  fields := [
    ⟨"ok", true, fun h n => do return { h with ok := ← n.readBool }⟩,
    ⟨"worker_id", true, fun h n => do return { h with workerId := ← n.readString }⟩]

def read (n : Node) : ReadResult Health := record.read .text ⟨false, ""⟩ n

end Health

end BoundedWorker
