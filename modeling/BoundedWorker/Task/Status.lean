import BoundedWorker.Resources.Profile
import BoundedWorker.Json.Printer
import BoundedWorker.Duration

/-!
Where an admitted task stands. As JSON a status is tagged by its `state`, which may be any member
of the object or the first item of an array; the other members are set aside until the state is
known.
-/

namespace BoundedWorker

namespace Duration

def toJson (d : Duration) : Json :=
  .object [("secs", Json.ofNat d.secs), ("nanos", Json.ofNat d.nanos)]

def readSecs (n : Node) : ReadResult Nat := n.readNatural "u64" (Nat.pow 2 64)

def readNanos (n : Node) : ReadResult Nat := n.readNatural "u32" (Nat.pow 2 32)

def ofRead (secs nanos : Nat) : ReadResult Duration :=
  match ofParts? secs nanos with
  | some d => .ok d
  | none => .error .durationTooLong

def readMembers (secs nanos : Option Nat) : List (Option String × Node) → ReadResult Duration
  | [] =>
    match secs, nanos with
    | none, _ => .error (.missingField "secs")
    | _, none => .error (.missingField "nanos")
    | some s, some n => ofRead s n
  | (k, n) :: rest => do
    match ← Node.nameOf k with
    | "secs" =>
      if secs.isSome then .error (.duplicateField "secs")
      else readMembers (some (← readSecs n)) nanos rest
    | "nanos" =>
      if nanos.isSome then .error (.duplicateField "nanos")
      else readMembers secs (some (← readNanos n)) rest
    | name => .error (.unknownField name ["secs", "nanos"])

def read : Node → ReadResult Duration
  | .object members _ => readMembers none none members
  | .array items _ =>
    match items with
    | [] => .error (.wrongLength 0 "struct Duration")
    | [s] => do
      let _ ← readSecs s
      .error (.wrongLength 1 "struct Duration")
    | s :: n :: rest => do
      let d ← ofRead (← readSecs s) (← readNanos n)
      if rest.isEmpty then return d else .error (Origin.aside.surplus (2 + rest.length) 2)
  | n => .error (n.mismatch "struct Duration")

end Duration

inductive TaskStatus where
  | awaitingSlot
  | running (elapsed : Duration) (priority : Int32) (required : Profile)

namespace TaskStatus

def toJson : TaskStatus → Json
  | awaitingSlot => .object [("state", .string "awaiting_slot")]
  | running elapsed priority required =>
    .object [("state", .string "running"), ("elapsed", elapsed.toJson),
      ("priority", Json.ofInt priority.toInt), ("required", required.toJson)]

inductive State where
  | awaitingSlot
  | running

def states : List (String × State) :=
  [("awaiting_slot", .awaitingSlot), ("running", .running)]

def readState : Node → ReadResult State
  | .string (some s) =>
    match Table.lookup s states with
    | some a => .ok a
    | none => .error (.unknownVariant s (states.map (·.1)))
  | n => .error (n.mismatch "variant identifier")

structure Running where
  elapsed : Duration
  priority : Int32
  required : Profile

def runningRecord : Record Running where
  title := "struct variant TaskStatus::Running"
  fields := [
    ⟨"elapsed", true, fun r n => do return { r with elapsed := ← Duration.read n }⟩,
    ⟨"priority", true, fun r n => do return { r with priority := ← n.readInt32 }⟩,
    ⟨"required", true, fun r n => do return { r with required := ← Profile.read n }⟩]

def ofRest (state : State) (rest : Json) : ReadResult TaskStatus :=
  match state with
  | .awaitingSlot =>
    match rest with
    | .array items =>
      if items.isEmpty then .ok .awaitingSlot
      else .error (Origin.aside.surplus items.length 0)
    | _ => .ok .awaitingSlot
  | .running => do
    let r ← runningRecord.read .aside ⟨.zero, 0, .empty⟩ (Node.ofJson rest)
    return .running r.elapsed r.priority r.required

def readMembers (ended : Bool) (state : Option State) (rest : List (String × Json)) :
    List (Option String × Node) → ReadResult TaskStatus
  | [] => do
    Node.finish ended
    match state with
    | none => .error (.missingField "state")
    | some s => ofRest s (.object rest.reverse)
  | (k, n) :: more => do
    let name ← Node.nameOf k
    if name = "state" then
      if state.isSome then .error (.duplicateField "state")
      else readMembers ended (some (← readState n)) rest more
    else
      let j ← n.readJson (nestingLimit - 1)
      readMembers ended state ((name, j) :: rest) more

def read : Node → ReadResult TaskStatus
  | .object members ended => readMembers ended none [] members
  | .array [] ended => do
    Node.finish ended
    .error (.missingField "state")
  | .array (first :: items) ended => do
    let s ← readState first
    let rest ← Node.readItems (fun n => n.readJson (nestingLimit - 1)) ended items
    ofRest s (.array rest)
  | n => .error (n.mismatch "internally tagged enum TaskStatus")

end TaskStatus

end BoundedWorker
