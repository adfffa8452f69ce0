import BoundedWorker.Worker.State

/-!
What can happen to a worker, one indivisible step at a time. Each step gives the next state and the
notices of what happened on the way, in order. An event that does not apply changes nothing.

A step is one poll of a task from one suspension to the next, or one drop, as a whole. What other
threads could do between two parts of it is not described: a shutdown stops accepting, closes the
slots and cancels at once, and an end of a ticket gives everything back at once. The checks that
guard against such a moment stand where they are made, in `acquire` for slots that were closed and
in `launch` for a worker that no longer accepts, but in a run of whole steps neither ever fails.

Every way out of a reservation goes through `endTicket`, which gives back the resources, the
identifier and the slot, in this order.
-/

namespace BoundedWorker

inductive Event where
  /-- `now` counts milliseconds since the epoch. -/
  | submit (request : TaskRequest) (now : Nat)
  | message (m : AgentMessage) (freshId : String) (now : Nat)
  | resume (call : Token) (now : Nat)
  | abandon (call : Token)
  | turn (token : Token) (body : BodyTurn) (expired : Bool) (elapsed : Duration)
  | reportEnded (token : Token) (delivered : Bool)
  | shutdown
  | resumeDrain (call : Token)
  /-- The last reference to the worker goes away; possible only while nobody waits for it. -/
  | drop

inductive Notice where
  | answered (call : Token) (answer : Answer)
  | responded (call : Token) (response : AdmissionResponse)
  | abandoned (call : Token)
  | launched (token : Token)
  | started (token : Token)
  | reported (token : Token) (result : TaskResult)
  | returned (call : Token) (cancelled : Nat)
  | alarm (a : LedgerAlarm)
  | woken (call : Token)
  | roused (token : Token)
  | nudged (call : Token)

abbrev Change := Worker × List Notice

def Change.next (c : Change) (f : Worker → Change) : Change :=
  let d := f c.1
  (d.1, c.2 ++ d.2)

namespace Totals

def countOutcome (t : Totals) : Outcome → Totals
  | .completed _ => { t with completed := t.completed + 1 }
  | .failed (.timeout _) => { t with timedOut := t.timedOut + 1 }
  | .failed .cancelled => { t with cancelled := t.cancelled + 1 }
  | .failed (.execution _) => { t with failed := t.failed + 1 }

end Totals

namespace Worker

def withTotals (w : Worker) (f : Totals → Totals) : Worker := { w with totals := f w.totals }

def grantFirst : List Waiter → List Waiter × Option Token
  | [] => ([], none)
  | v :: rest =>
    if v.granted then
      let (rest', call) := grantFirst rest
      (v :: rest', call)
    else ({ v with granted := true } :: rest, some v.call)

/-- A slot comes back. While slots are handed out it goes to the submission that waits longest. -/
def returnSlot (w : Worker) : Change :=
  if w.slotsClosed then ({ w with freeSlots := w.freeSlots + 1 }, [])
  else match grantFirst w.waiters with
    | (waiters, some call) => ({ w with waiters }, [.woken call])
    | (_, none) => ({ w with freeSlots := w.freeSlots + 1 }, [])

def releaseResources (w : Worker) (r : TaskRequest) : Change :=
  let (ledger, alarms) := w.ledger.release r.required
  ({ w with ledger, registry := (w.registry.remove r.taskId).1 }, alarms.map .alarm)

def wakeDrains (w : Worker) (stage : DrainStage) : Change :=
  ({ w with
      drains := w.drains.map fun d => if d.stage = stage then { d with woken := true } else d },
    (w.drains.filter fun d => d.stage = stage).map fun d => .nudged d.call)

def noteIdle (w : Worker) : Change :=
  if w.registry.isEmpty then w.wakeDrains .reservations else (w, [])

def noteDone (w : Worker) : Change :=
  if w.stopped && w.executionsDone then w.wakeDrains .executions else (w, [])

def endTicket (w : Worker) (r : TaskRequest) (slot : Bool) : Change :=
  ((w.releaseResources r).next fun w => if slot then w.returnSlot else (w, [])).next noteIdle

def reject (call : Token) (r : Refusal) (w : Worker) : Change :=
  (w.withTotals fun t => { t with rejected := t.rejected + 1 }, [.answered call (.error r)])

def launched (w : Worker) (call : Token) (r : TaskRequest) (now : Nat) : Worker :=
  let w' : Worker := { w with
    registry := w.registry.promote r.taskId ⟨call, now, r.priority, r.required⟩
    running := w.running ++ [⟨call, r, false⟩] }
  w'.withTotals fun t => { t with admitted := t.admitted + 1 }

/-- A submission that holds a slot becomes an execution, unless the worker is shutting down. -/
def launch (w : Worker) (call : Token) (r : TaskRequest) (now : Nat) : Change :=
  if !w.accepting then (w.endTicket r true).next (reject call .shuttingDown)
  else (w.launched call r now, [.launched call, .answered call (.ok r.taskId)])

def slotTaken (w : Worker) : Worker := { w with freeSlots := w.freeSlots - 1 }

def queued (w : Worker) (call : Token) (r : TaskRequest) : Worker :=
  { w with waiters := w.waiters ++ [⟨call, r, false⟩] }

def acquire (w : Worker) (call : Token) (r : TaskRequest) (now : Nat) : Change :=
  if w.slotsClosed then (w.endTicket r false).next (reject call .shuttingDown)
  else if 0 < w.freeSlots then w.slotTaken.launch call r now
  else (w.queued call r, [])

def decide (w : Worker) (r : TaskRequest) (now : Nat) : Except Refusal Ledger :=
  match r.validate with
  | .error fault => .error (.invalidRequest fault.message)
  | .ok () =>
    if r.deadline.any fun d => d.val < now then .error .deadlineExpired
    else if !w.accepting then .error .shuttingDown
    else if w.registry.contains r.taskId then .error (.duplicateTask r.taskId)
    else match w.ledger.commit r.required with
      | .error s => .error (.insufficientResources s)
      | .ok ledger => .ok ledger

def numbered (w : Worker) : Worker := { w with calls := w.calls + 1 }

def opened (w : Worker) : Worker :=
  w.numbered.withTotals fun t => { t with submitted := t.submitted + 1 }

def reserved (w : Worker) (r : TaskRequest) (ledger : Ledger) : Worker :=
  { w with ledger, registry := (w.registry.insertWaiting r.taskId).1 }

def submit (w : Worker) (r : TaskRequest) (now : Nat) : Change :=
  match w.opened.decide r now with
  | .error refusal => w.opened.reject w.calls refusal
  | .ok ledger => (w.opened.reserved r ledger).acquire w.calls r now

def message (w : Worker) (m : AgentMessage) (freshId : String) (now : Nat) : Change :=
  match m.dispatch freshId with
  | .request r => w.submit r now
  | .malformed fault =>
    (w.numbered, [.responded w.calls (.ofRefusal (.invalidRequest fault.message))])
  | .unhandled => (w.numbered, [.responded w.calls (.unhandled .unhandledMessageType)])

def waiter? (w : Worker) (call : Token) : Option Waiter := w.waiters.find? fun v => v.call = call

def unqueued (w : Worker) (call : Token) : Worker :=
  { w with waiters := w.waiters.filter fun u => u.call ≠ call }

def leaveQueue (w : Worker) (v : Waiter) : Change :=
  if v.granted then (w.unqueued v.call).returnSlot else (w.unqueued v.call, [])

/-- Closed slots refuse those who were given one as well as those who were not. -/
def resume (w : Worker) (call : Token) (now : Nat) : Change :=
  match w.waiter? call with
  | none => (w, [])
  | some v =>
    if w.slotsClosed then
      ((w.leaveQueue v).next fun w => w.endTicket v.request false).next (reject call .shuttingDown)
    else if v.granted then (w.unqueued call).launch call v.request now
    else (w, [])

def abandon (w : Worker) (call : Token) : Change :=
  match w.waiter? call with
  | none => (w, [])
  | some v =>
    ((w.leaveQueue v).next fun w => w.endTicket v.request false).next fun w =>
      (w, [.abandoned call])

def execution? (w : Worker) (t : Token) : Option Execution := w.running.find? fun e => e.token = t

def ended (w : Worker) (t : Token) (o : Outcome) : Worker :=
  { w with running := w.running.filter fun u => u.token ≠ t }.withTotals fun t => t.countOutcome o

def delivering (w : Worker) (t : Token) : Worker := { w with reporting := w.reporting ++ [t] }

def finish (w : Worker) (e : Execution) (o : Outcome) (elapsed : Duration) : Change :=
  ((w.ended e.token o).endTicket e.request true).next fun w =>
    (w.delivering e.token, [.reported e.token (o.toResult e.request.taskId elapsed)])

def moment (w : Worker) (t : Token) (body : BodyTurn) (expired : Bool) : Moment :=
  ⟨w.isCancelled t, body, expired⟩

def cancels (w : Worker) (m : Moment) : Bool := !m.cancelled && m.cancelledAfter w.config.timeout

def cancelledIf (w : Worker) (c : Bool) (t : Token) : Worker :=
  if c then { w with cancelled := t :: w.cancelled } else w

def carriedOn (w : Worker) (t : Token) : Worker :=
  { w with running := w.running.map fun u => if u.token = t then { u with started := true } else u }

def beginning (e : Execution) (v : Verdict) : List Notice :=
  if v.bodyRan && !e.started then [.started e.token] else []

def turn (w : Worker) (t : Token) (body : BodyTurn) (expired : Bool) (elapsed : Duration) :
    Change :=
  match w.execution? t with
  | none => (w, [])
  | some e =>
    let m := w.moment t body expired
    let v := m.verdict w.config.timeout
    let w' := w.cancelledIf (w.cancels m) t
    match v.outcome with
    | some o => Change.next (w', beginning e v) fun w => w.finish e o elapsed
    | none => (w'.carriedOn t, beginning e v ++ if w.cancels m then [.roused t] else [])

def reportEnded (w : Worker) (t : Token) (delivered : Bool) : Change :=
  if w.reporting.contains t then
    let w := { w with reporting := w.reporting.filter (· ≠ t) }
    let w := if delivered then w
      else w.withTotals fun t => { t with reportFailures := t.reportFailures + 1 }
    w.noteDone
  else (w, [])

/-- A shutdown goes on as far as it can: past the executions, then past the reservations. -/
def advanceDrain (w : Worker) (d : Drain) : Change :=
  if d.stage = .executions && !w.executionsDone then
    ({ w with drains := w.drains ++ [{ d with woken := false }] }, [])
  else if w.registry.isEmpty then (w, [.returned d.call d.cancelled])
  else ({ w with drains := w.drains ++ [{ d with stage := .reservations, woken := false }] }, [])

def stop (w : Worker) : Change :=
  let waiting := (w.waiters.filter fun v => !v.granted).map fun v => Notice.woken v.call
  let w' := { w with accepting := false, slotsClosed := true, stopped := true }
  (w', (if w.slotsClosed then [] else waiting) ++
    if w.stopped then [] else w.running.map fun e => .roused e.token)

/-- Only the first shutdown cancels, and counts, the executions that run. -/
def shutdown (w : Worker) : Change :=
  let tokens := if w.accepting then w.registry.tokens else []
  let call := w.calls
  let w := { w with calls := w.calls + 1, cancelled := tokens ++ w.cancelled }
  w.stop.next fun w => w.advanceDrain ⟨call, tokens.length, .executions, false⟩

def resumeDrain (w : Worker) (call : Token) : Change :=
  match w.drains.find? fun d => d.call = call with
  | none => (w, [])
  | some d =>
    if d.woken then { w with drains := w.drains.filter fun u => u.call ≠ call }.advanceDrain d
    else (w, [])

def drop (w : Worker) : Change :=
  if w.hasCallers then (w, [])
  else if w.stopped then ({ w with dropped := true }, [])
  else { w with dropped := true }.stop

def step (w : Worker) : Event → Change
  | .submit r now => if w.dropped then (w, []) else w.submit r now
  | .message m freshId now => if w.dropped then (w, []) else w.message m freshId now
  | .resume call now => w.resume call now
  | .abandon call => w.abandon call
  | .turn t body expired elapsed => w.turn t body expired elapsed
  | .reportEnded t delivered => w.reportEnded t delivered
  | .shutdown => if w.dropped then (w, []) else w.shutdown
  | .resumeDrain call => w.resumeDrain call
  | .drop => w.drop

def run (w : Worker) : List Event → Change
  | [] => (w, [])
  | e :: rest => (w.step e).next fun w => w.run rest

end Worker

end BoundedWorker
