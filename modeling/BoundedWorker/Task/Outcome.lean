import BoundedWorker.Task.Result

/-!
How an execution ends. At every turn three things may be decided: the execution has been cancelled,
its body has finished, or its time is up. They are looked at in this order, and the body takes its
turn only while the execution is not cancelled.
-/

namespace BoundedWorker

inductive BodyEnd where
  | completed (metrics : Metrics)
  | error (reasons : List String)
  | panicked (panic : Panic)

inductive Outcome where
  | completed (metrics : Metrics)
  | failed (failure : Failure)

def BodyEnd.outcome : BodyEnd → Outcome
  | completed metrics => .completed metrics
  | error reasons => .failed (.execution (": ".intercalate reasons))
  | panicked panic => .failed (.execution panic.message)

/-- A success keeps the duration that the body set; a failure always has the measured one. -/
def Outcome.toResult (o : Outcome) (taskId : String) (elapsed : Duration) : TaskResult :=
  let seconds := Metric.number elapsed.toSeconds
  match o with
  | completed metrics =>
    .succeeded taskId (if metrics.contains TaskResult.durationMetric then metrics
      else metrics.insert TaskResult.durationMetric seconds)
  | failed failure =>
    (TaskResult.failed taskId failure).withMetric TaskResult.durationMetric seconds

structure BodyTurn where
  cancels : Bool
  finish : Option BodyEnd

def BodyTurn.idle : BodyTurn := ⟨false, none⟩

structure Moment where
  cancelled : Bool
  body : BodyTurn
  expired : Bool

structure Verdict where
  outcome : Option Outcome
  bodyRan : Bool
  cancels : Bool

def Moment.verdict (m : Moment) (limit : Duration) : Verdict :=
  if m.cancelled then ⟨some (.failed .cancelled), false, false⟩
  else match m.body.finish with
    | some e => ⟨some e.outcome, true, false⟩
    | none =>
      if m.expired then ⟨some (.failed (.timeout limit)), true, true⟩ else ⟨none, true, false⟩

def Moment.cancelledAfter (m : Moment) (limit : Duration) : Bool :=
  let v := m.verdict limit
  m.cancelled || (v.bodyRan && m.body.cancels) || v.cancels

end BoundedWorker
