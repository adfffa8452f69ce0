import BoundedWorker.Task.Status

/-!
The registry of admitted tasks: those that wait for a slot and those that run. Each task is known by
its identifier, and each running one has a handle with what was admitted under that identifier.
-/

namespace BoundedWorker

/-- Names one execution, for cancelling it alone. -/
abbrev Token := Nat

structure Handle where
  token : Token
  startedAt : Nat
  priority : Int32
  required : Profile

structure Registry where
  waiting : List String
  running : Table Handle

namespace Registry

def empty : Registry := ⟨[], .empty⟩

def contains (r : Registry) (id : String) : Bool :=
  r.waiting.contains id || r.running.contains id

def insertWaiting (r : Registry) (id : String) : Registry × Bool :=
  if r.contains id then (r, false) else ({ r with waiting := r.waiting ++ [id] }, true)

/-- From here on the task runs, whatever it was before. -/
def promote (r : Registry) (id : String) (h : Handle) : Registry :=
  ⟨r.waiting.filter (· ≠ id), r.running.insert id h⟩

def remove (r : Registry) (id : String) : Registry × Bool :=
  if r.running.contains id then ({ r with running := r.running.erase id }, true)
  else ({ r with waiting := r.waiting.filter (· ≠ id) }, r.waiting.contains id)

def status? (r : Registry) (now : Nat) (id : String) : Option TaskStatus :=
  match r.running.get? id with
  | some h => some (.running ((Duration.ofMillis? (now - h.startedAt)).getD .longest)
      h.priority h.required)
  | none => if r.waiting.contains id then some .awaitingSlot else none

def activeCount (r : Registry) : Nat := r.running.size

def waitingCount (r : Registry) : Nat := r.waiting.length

def isEmpty (r : Registry) : Bool := r.waiting.isEmpty && r.running.isEmpty

def tokens (r : Registry) : List Token := r.running.entries.map fun e => e.2.token

def runningIds (r : Registry) : List String := r.running.names

end Registry

end BoundedWorker
