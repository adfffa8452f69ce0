import BoundedWorker.Host.Script
import BoundedWorker.Reporter
import BoundedWorker.Worker.Step

/-!
A host runs a worker on one thread and a clock of whole milliseconds. Jobs that can go on stand in
one queue, first come first served; timers bring jobs to the end of the queue when they are due.
The clock moves only while the queue is empty.
-/

namespace BoundedWorker

inductive CallKind where
  | direct
  | request
  | message
deriving DecidableEq

inductive Job where
  | submit (kind : CallKind) (request : TaskRequest)
  | message (m : AgentMessage) (freshId : String)
  | resume (call : Token)
  | abandon (call : Token)
  | turn (token : Token)
  | reportEnded (token : Token)
  | shutdown
  | resumeDrain (call : Token)

structure Timer where
  due : Nat
  job : Job

structure Body where
  taskId : String
  priority : Int32
  script : Script
  state : BodyState
  /-- When its first turn was, and when its time is up; set at the first turn. -/
  limits : Option (Nat × Nat)

structure OpenCall where
  call : Token
  kind : CallKind
  taskId : String

inductive Sight where
  | started (taskId : String) (priority : Int32) (cancelled : Bool)
  | reported (result : TaskResult)
  | answered (taskId : String) (answer : Answer)
  | responded (taskId : String) (response : AdmissionResponse)
  | returned (cancelled : Nat)

structure Sighting where
  time : Nat
  call : Token
  sight : Sight

structure SlowReporter where
  delay : Nat
  answer : TaskResult → Except ReportFault Unit

structure Host where
  worker : Worker
  script : Value → Script
  place : Option Place
  reporter : SlowReporter
  epoch : Nat
  clock : Nat
  ready : List Job
  timers : List Timer
  openCalls : List OpenCall
  bodies : List (Token × Body)
  deliveries : List (Token × TaskResult)
  sightings : List Sighting
  lastCall : Table Token
  lastToken : Table Token
  held : Bool
  registered : Bool

namespace Host

def new (worker : Worker) (script : Value → Script) (place : Option Place)
    (reporter : SlowReporter) (epoch : Nat) : Host where
  worker
  script
  place
  reporter
  epoch
  clock := 0
  ready := []
  timers := []
  openCalls := []
  bodies := []
  deliveries := []
  sightings := []
  lastCall := .empty
  lastToken := .empty
  held := true
  registered := false

def now (h : Host) : Nat := h.epoch + h.clock

def enqueue (h : Host) (j : Job) : Host := { h with ready := h.ready ++ [j] }

def addTimer (h : Host) (due : Nat) (j : Job) : Host := { h with timers := h.timers ++ [⟨due, j⟩] }

def see (h : Host) (call : Token) (s : Sight) : Host :=
  { h with sightings := h.sightings ++ [⟨h.clock, call, s⟩] }

def body? (h : Host) (t : Token) : Option Body := (h.bodies.find? fun b => b.1 = t).map (·.2)

def setBody (h : Host) (t : Token) (b : Body) : Host :=
  { h with bodies := (t, b) :: h.bodies.filter fun c => c.1 ≠ t }

end Host

end BoundedWorker
