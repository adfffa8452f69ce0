import BoundedWorker.Host.Job

/-!
The clock of a host. Jobs run until none is ready, and only then does the clock move on, to the next
timer that is due.
-/

namespace BoundedWorker.Host

/-- More jobs than can run before the clock has to move: a submission leads to a resumption, a few
turns and a report, and everything else to fewer. -/
def workBound (h : Host) : Nat :=
  16 * (h.ready.length + h.timers.length + h.worker.waiters.length + h.worker.running.length +
    h.worker.reporting.length + h.worker.drains.length + 1)

def drain (h : Host) : Nat → Host
  | 0 => h
  | n + 1 =>
    match h.ready with
    | [] => h
    | j :: rest => ({ h with ready := rest }.perform j).drain n

def settle (h : Host) : Host := h.drain h.workBound

def fire (h : Host) : Host :=
  let due := h.timers.filter fun t => t.due ≤ h.clock
  let timers := h.timers.filter fun t => !(t.due ≤ h.clock)
  { h with ready := h.ready ++ due.map (·.job), timers }

def advanceTo (h : Host) (target : Nat) : Nat → Host
  | 0 => { h with clock := target }
  | n + 1 =>
    match (h.timers.map (·.due)).min? with
    | some due =>
      if due ≤ target then ({ h with clock := max h.clock due }.fire.settle).advanceTo target n
      else { h with clock := target }
    | none => { h with clock := target }

def advance (h : Host) (ms : Nat) : Host :=
  h.advanceTo (h.clock + ms)
    (4 * (h.timers.length + h.worker.waiters.length + h.worker.running.length +
      h.worker.reporting.length + 1))

def abandon (h : Host) (taskId : String) : Host × Bool :=
  match h.lastCall.get? taskId with
  | none => (h, false)
  | some call =>
    ({ h with lastCall := h.lastCall.erase taskId }.enqueue (.abandon call), true)

def letGo (h : Host) : Host := { h with held := false }.dropIfUnheld

end BoundedWorker.Host
