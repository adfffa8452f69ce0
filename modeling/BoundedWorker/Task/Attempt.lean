import BoundedWorker.Task.Outcome

/-!
One attempt at a task. Its body is polled under a time limit, which runs from the first poll on, and
is raced against the token of its context.
-/

namespace BoundedWorker

def farAway : Nat := 30 * 365 * 24 * 3600 * 1000

/-- The first whole millisecond at which a span of time that begins now is over. A span that leads
out of the range of the clock counts as thirty years; the reading to which it is added there is
taken as no more than one second, so this is a matter of the span alone. -/
def dueAfter (now : Nat) (d : Duration) : Nat :=
  if Nat.pow 2 63 ≤ d.secs + 1 then now + farAway else now + (d.toNanos + 999999) / 1000000

inductive Stimulus where
  | cancel
  | poll (now : Nat) (body : BodyTurn)

structure Attempt where
  limit : Duration
  /-- When the time is up; set at the first poll. -/
  due : Option Nat
  cancelled : Bool
  turns : List (Nat × BodyTurn)
  gaveUp : Bool
  outcome : Option Outcome

namespace Attempt

def new (limit : Duration) (cancelled : Bool) : Attempt := ⟨limit, none, cancelled, [], false, none⟩

def poll (a : Attempt) (now : Nat) (body : BodyTurn) : Attempt :=
  let due := a.due.getD (dueAfter now a.limit)
  let m : Moment := ⟨a.cancelled, body, due ≤ now⟩
  let v := m.verdict a.limit
  { a with
    due := some due
    cancelled := m.cancelledAfter a.limit
    turns := if v.bodyRan then a.turns ++ [(now, body)] else a.turns
    gaveUp := v.cancels
    outcome := v.outcome }

def apply (a : Attempt) : Stimulus → Attempt
  | .cancel => { a with cancelled := true }
  | .poll now body => if a.outcome.isSome then a else a.poll now body

def run (a : Attempt) (stimuli : List Stimulus) : Attempt := stimuli.foldl apply a

end Attempt

end BoundedWorker
