import BoundedWorker.Admission
import BoundedWorker.Proofs.JsonReading

/-!
Responses to submissions as JSON. No variant has a tag, and none needs one: the members that one of
them writes are never those that an earlier one asks for.
-/

namespace BoundedWorker

namespace AdmissionStatus

theorem read_string (s : AdmissionStatus) : read (.string (some s.name)) = .ok s := by
  cases s <;> rfl

end AdmissionStatus

namespace AdmissionResponse

def nodes : AdmissionResponse → List (Option String × Node)
  | accepted taskId status =>
    [(some "task_id", .string (some taskId)), (some "status", .string (some status.name))]
  | rejected error detail =>
    [(some "error", .string (some error)), (some "detail", .string (some detail))]
  | unhandled status => [(some "status", .string (some status.name))]

theorem ofJson_toJson (r : AdmissionResponse) :
    Node.ofJson r.toJson = .object r.nodes true := by
  cases r <;> rfl

open Record (readMembers_field readMembers_surplus readMembers_done readMembers_missing)

section Variants

variable (taskId error detail : String) (status : AdmissionStatus)

theorem acceptedRecord_accepted :
    acceptedRecord.readMembers true [] ("", .queued) (accepted taskId status).nodes =
      .ok (taskId, status) := by
  have hstatus : Except.map (Prod.mk taskId) (AdmissionStatus.read (.string (some status.name))) =
      .ok (taskId, status) := by
    rw [AdmissionStatus.read_string]
    rfl
  rw [nodes, readMembers_field rfl rfl rfl, readMembers_field rfl rfl hstatus]
  exact readMembers_done rfl

theorem acceptedRecord_rejected :
    acceptedRecord.readMembers true [] ("", .queued) (rejected error detail).nodes =
      .error (.missingField "task_id") := by
  rw [nodes, readMembers_surplus rfl rfl, readMembers_surplus rfl rfl]
  exact readMembers_missing rfl

theorem acceptedRecord_unhandled :
    acceptedRecord.readMembers true [] ("", .queued) (unhandled status).nodes =
      .error (.missingField "task_id") := by
  have hstatus : Except.map (Prod.mk "") (AdmissionStatus.read (.string (some status.name))) =
      .ok ("", status) := by
    rw [AdmissionStatus.read_string]
    rfl
  rw [nodes, readMembers_field rfl rfl hstatus]
  exact readMembers_missing rfl

theorem rejectedRecord_rejected :
    rejectedRecord.readMembers true [] ("", "") (rejected error detail).nodes =
      .ok (error, detail) := by
  rw [nodes, readMembers_field rfl rfl rfl, readMembers_field rfl rfl rfl]
  exact readMembers_done rfl

theorem rejectedRecord_unhandled :
    rejectedRecord.readMembers true [] ("", "") (unhandled status).nodes =
      .error (.missingField "error") := by
  rw [nodes, readMembers_surplus rfl rfl]
  exact readMembers_missing rfl

theorem unhandledRecord_unhandled :
    unhandledRecord.readMembers true [] .queued (unhandled status).nodes = .ok status := by
  rw [nodes, readMembers_field rfl rfl (status.read_string)]
  exact readMembers_done rfl

end Variants

theorem ofMembers?_nodes (r : AdmissionResponse) : ofMembers? r.nodes = some r := by
  cases r with
  | accepted taskId status => rw [ofMembers?, acceptedRecord_accepted]
  | rejected error detail =>
    rw [ofMembers?, acceptedRecord_rejected, rejectedRecord_rejected]
  | unhandled status =>
    rw [ofMembers?, acceptedRecord_unhandled, rejectedRecord_unhandled, unhandledRecord_unhandled]

/-- What is sent as a response is received as the same response, whatever its texts. -/
theorem readText_response (r : AdmissionResponse) :
    readText AdmissionResponse.read r.toJson.text = .ok r := by
  have hdepth : r.toJson.depth = 1 := by cases r <;> rfl
  have hnumbers : r.toJson.numbers = [] := by cases r <;> rfl
  have hread : (r.toJson.tree Number.written).readJson nestingLimit = .ok r.toJson :=
    r.toJson.readTree_tree (fun _ => by rw [hdepth]; decide) (by simp [hnumbers])
  rw [readText_text]
  simp only [AdmissionResponse.read, hread, bind, Except.bind, ofJson_toJson, ofMembers?_nodes]
  rfl

end AdmissionResponse

end BoundedWorker
