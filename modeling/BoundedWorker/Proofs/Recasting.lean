import BoundedWorker.Proofs.Closing
import Mathlib.Logic.Function.Basic

/-!
Recasting. Calls may be numbered otherwise, requests may have another priority and payload, and more
of them may have been refused: a worker that is recast so does the same, recast in the same way. So
nothing depends on the numbers of calls beyond which of them are equal, and nothing on priorities
and payloads at all.
-/

namespace BoundedWorker

section Keys

variable {α : Type} (key : α → Token) (f : α → α) {g : Token → Token}

theorem find?_map_key (hg : Function.Injective g) (hf : ∀ a, key (f a) = g (key a))
    (as : List α) (k : Token) : ((as.map f).find? fun a => key a = g k) =
      (as.find? fun a => key a = k).map f := by
  rw [List.find?_map]
  congr 1
  congr 1
  funext a
  simp [hf, hg.eq_iff]

theorem filter_map_key (hg : Function.Injective g) (hf : ∀ a, key (f a) = g (key a))
    (as : List α) (k : Token) : ((as.map f).filter fun a => key a ≠ g k) =
      (as.filter fun a => key a ≠ k).map f := by
  rw [List.filter_map]
  congr 2
  funext a
  simp [hf, hg.eq_iff]

end Keys

def Notice.call? : Notice → Option Token
  | .answered call _ | .responded call _ | .abandoned call | .launched call | .started call
  | .reported call _ | .returned call _ | .woken call | .roused call | .nudged call => some call
  | .alarm _ => none

def Notice.renumber (g : Token → Token) : Notice → Notice
  | .answered call answer => .answered (g call) answer
  | .responded call response => .responded (g call) response
  | .abandoned call => .abandoned (g call)
  | .launched token => .launched (g token)
  | .started token => .started (g token)
  | .reported token result => .reported (g token) result
  | .returned call cancelled => .returned (g call) cancelled
  | .alarm a => .alarm a
  | .woken call => .woken (g call)
  | .roused token => .roused (g token)
  | .nudged call => .nudged (g call)

def Event.call? : Event → Option Token
  | .resume call _ | .abandon call | .turn call _ _ _ | .reportEnded call _ | .resumeDrain call =>
    some call
  | .submit _ _ | .message _ _ _ | .shutdown | .drop => none

def Event.renumber (g : Token → Token) : Event → Event
  | .submit r now => .submit r now
  | .message m freshId now => .message m freshId now
  | .resume call now => .resume (g call) now
  | .abandon call => .abandon (g call)
  | .turn token body expired elapsed => .turn (g token) body expired elapsed
  | .reportEnded token delivered => .reportEnded (g token) delivered
  | .shutdown => .shutdown
  | .resumeDrain call => .resumeDrain (g call)
  | .drop => .drop

/-- Other numbers, priorities and payloads for calls, how many calls there were, and how many more
requests were refused. -/
structure Recast where
  number : Token → Token
  injective : Function.Injective number
  priority : Token → Int32 → Int32
  payload : Token → Value → Value
  calls : Nat
  refused : UInt64

namespace Recast

variable (ρ : Recast)

def request (call : Token) (r : TaskRequest) : TaskRequest :=
  { r with priority := ρ.priority call r.priority, payload := ρ.payload call r.payload }

def waiter (v : Waiter) : Waiter := ⟨ρ.number v.call, ρ.request v.call v.request, v.granted⟩

def execution (x : Execution) : Execution :=
  ⟨ρ.number x.token, ρ.request x.token x.request, x.started⟩

def handle (h : Handle) : Handle :=
  { h with token := ρ.number h.token, priority := ρ.priority h.token h.priority }

def drain (d : Drain) : Drain := { d with call := ρ.number d.call }

def registry (r : Registry) : Registry := ⟨r.waiting, r.running.map ρ.handle⟩

def totals (t : Totals) : Totals :=
  { t with submitted := t.submitted + ρ.refused, rejected := t.rejected + ρ.refused }

def worker (w : Worker) : Worker :=
  { w with
    registry := ρ.registry w.registry
    cancelled := w.cancelled.map ρ.number
    totals := ρ.totals w.totals
    calls := ρ.calls
    waiters := w.waiters.map ρ.waiter
    running := w.running.map ρ.execution
    reporting := w.reporting.map ρ.number
    drains := w.drains.map ρ.drain }

def change (c : Change) : Change := (ρ.worker c.1, c.2.map (Notice.renumber ρ.number))

def next : Recast := { ρ with calls := ρ.calls + 1 }

theorem change_next {c : Change} {f f' : Worker → Change}
    (h : ∀ w, f' (ρ.worker w) = ρ.change (f w)) :
    (ρ.change c).next f' = ρ.change (c.next f) := by
  simp [change, Change.next, h]

theorem registry_contains (r : Registry) (id : String) :
    (ρ.registry r).contains id = r.contains id := by
  simp [Registry.contains, registry, Table.contains, Table.get?_map]

theorem registry_isEmpty (r : Registry) : (ρ.registry r).isEmpty = r.isEmpty := by
  simp [Registry.isEmpty, registry, Table.isEmpty, Table.map]

theorem registry_insertWaiting (r : Registry) (id : String) :
    ((ρ.registry r).insertWaiting id).1 = ρ.registry (r.insertWaiting id).1 := by
  rw [Registry.insertWaiting, Registry.insertWaiting, registry_contains]
  split <;> rfl

theorem registry_promote (r : Registry) (id : String) (h : Handle) :
    (ρ.registry r).promote id (ρ.handle h) = ρ.registry (r.promote id h) := by
  refine congrArg (Registry.mk _) (Table.ext_get? fun name => ?_)
  simp only [registry, Table.get?_insert, Table.get?_map]
  split <;> simp [Registry.promote, Table.get?_insert, *]

theorem registry_remove (r : Registry) (id : String) :
    ((ρ.registry r).remove id).1 = ρ.registry (r.remove id).1 := by
  have hcontains : (ρ.registry r).running.contains id = r.running.contains id := by
    simp [registry, Table.contains, Table.get?_map]
  rw [Registry.remove, Registry.remove, hcontains]
  split
  · refine congrArg (Registry.mk _) (Table.ext_get? fun name => ?_)
    simp only [registry, Table.get?_erase, Table.get?_map]
    split <;> simp
  · rfl

theorem registry_tokens (r : Registry) : (ρ.registry r).tokens = r.tokens.map ρ.number := by
  simp [Registry.tokens, registry, Table.map, handle]

theorem grantFirst (vs : List Waiter) : Worker.grantFirst (vs.map ρ.waiter) =
    ((Worker.grantFirst vs).1.map ρ.waiter, (Worker.grantFirst vs).2.map ρ.number) := by
  induction vs with
  | nil => rfl
  | cons v rest ih =>
    have hgranted : (ρ.waiter v).granted = v.granted := rfl
    rw [List.map_cons, Worker.grantFirst, Worker.grantFirst, hgranted]
    split
    · rw [ih]
      rfl
    · rfl

variable (w : Worker)

theorem returnSlot : (ρ.worker w).returnSlot = ρ.change w.returnSlot := by
  have hclosed : (ρ.worker w).slotsClosed = w.slotsClosed := rfl
  have hwaiters : (ρ.worker w).waiters = w.waiters.map ρ.waiter := rfl
  rw [Worker.returnSlot, Worker.returnSlot, hclosed, hwaiters, grantFirst]
  cases w.slotsClosed with
  | true => rfl
  | false => rcases Worker.grantFirst w.waiters with ⟨waiters, _ | call⟩ <;> rfl

theorem releaseResources (call : Token) (r : TaskRequest) :
    (ρ.worker w).releaseResources (ρ.request call r) = ρ.change (w.releaseResources r) := by
  have hregistry := ρ.registry_remove w.registry r.taskId
  simp only [Worker.releaseResources, change, List.map_map]
  refine Prod.ext ?_ rfl
  simp only [worker, hregistry, request]

theorem wakeDrains (stage : DrainStage) :
    (ρ.worker w).wakeDrains stage = ρ.change (w.wakeDrains stage) := by
  have hwake : ∀ d : Drain, (if (ρ.drain d).stage = stage then { ρ.drain d with woken := true }
      else ρ.drain d) = ρ.drain (if d.stage = stage then { d with woken := true } else d) := by
    intro d
    by_cases hstage : d.stage = stage <;> simp [drain, hstage]
  have hstage : (fun d => Decidable.decide (d.stage = stage)) ∘ ρ.drain =
      fun d => Decidable.decide (d.stage = stage) := rfl
  simp only [Worker.wakeDrains, change, worker, List.map_map, List.filter_map, hstage]
  refine Prod.ext ?_ rfl
  simp only [Function.comp_def, hwake]

theorem noteIdle : (ρ.worker w).noteIdle = ρ.change w.noteIdle := by
  have hidle : (ρ.worker w).registry.isEmpty = w.registry.isEmpty := ρ.registry_isEmpty _
  rw [Worker.noteIdle, Worker.noteIdle, hidle]
  split
  · exact ρ.wakeDrains w _
  · rfl

theorem executionsDone : (ρ.worker w).executionsDone = w.executionsDone := by
  simp [Worker.executionsDone, worker]

theorem noteDone : (ρ.worker w).noteDone = ρ.change w.noteDone := by
  have hstopped : (ρ.worker w).stopped = w.stopped := rfl
  rw [Worker.noteDone, Worker.noteDone, executionsDone, hstopped]
  split
  · exact ρ.wakeDrains w _
  · rfl

theorem endTicket (call : Token) (r : TaskRequest) (slot : Bool) :
    (ρ.worker w).endTicket (ρ.request call r) slot = ρ.change (w.endTicket r slot) := by
  rw [Worker.endTicket, Worker.endTicket, releaseResources, change_next, change_next]
  · exact ρ.noteIdle
  · intro w
    cases slot with
    | true => exact ρ.returnSlot w
    | false => rfl

theorem add_one (count : UInt64) : count + ρ.refused + 1 = count + 1 + ρ.refused := by
  rw [UInt64.add_assoc, UInt64.add_comm ρ.refused, ← UInt64.add_assoc]

theorem reject (call : Token) (refusal : Refusal) :
    Worker.reject (ρ.number call) refusal (ρ.worker w) =
      ρ.change (Worker.reject call refusal w) := by
  refine Prod.ext ?_ rfl
  simp only [Worker.reject, Worker.withTotals, change, worker, totals, add_one]

theorem launched (call : Token) (r : TaskRequest) (now : Nat) :
    (ρ.worker w).launched (ρ.number call) (ρ.request call r) now =
      ρ.worker (w.launched call r now) := by
  have hregistry := ρ.registry_promote w.registry r.taskId ⟨call, now, r.priority, r.required⟩
  simp only [Worker.launched, Worker.withTotals, worker, List.map_append]
  simp only [← hregistry]
  rfl

theorem launch (call : Token) (r : TaskRequest) (now : Nat) :
    (ρ.worker w).launch (ρ.number call) (ρ.request call r) now =
      ρ.change (w.launch call r now) := by
  have haccepting : (ρ.worker w).accepting = w.accepting := rfl
  rw [Worker.launch, Worker.launch, haccepting]
  split
  · rw [endTicket, change_next]
    exact fun w => ρ.reject w call .shuttingDown
  · rw [launched]
    rfl

theorem queued (call : Token) (r : TaskRequest) :
    (ρ.worker w).queued (ρ.number call) (ρ.request call r) = ρ.worker (w.queued call r) := by
  simp [Worker.queued, worker, waiter]

theorem acquire (call : Token) (r : TaskRequest) (now : Nat) :
    (ρ.worker w).acquire (ρ.number call) (ρ.request call r) now =
      ρ.change (w.acquire call r now) := by
  have hclosed : (ρ.worker w).slotsClosed = w.slotsClosed := rfl
  have hfree : (ρ.worker w).freeSlots = w.freeSlots := rfl
  rw [Worker.acquire, Worker.acquire, hclosed, hfree]
  split
  · rw [endTicket, change_next]
    exact fun w => ρ.reject w call .shuttingDown
  · split
    · exact ρ.launch w.slotTaken call r now
    · rw [queued]
      rfl

theorem decide (call : Token) (r : TaskRequest) (now : Nat) :
    (ρ.worker w).decide (ρ.request call r) now = w.decide r now := by
  have hcontains : (ρ.worker w).registry.contains r.taskId = w.registry.contains r.taskId :=
    ρ.registry_contains _ _
  simp only [Worker.decide, request, hcontains]
  rfl

theorem opened : (ρ.worker w).opened = ρ.next.worker w.opened := by
  simp only [Worker.opened, Worker.numbered, Worker.withTotals, worker, totals, add_one]
  rfl

theorem reserved (call : Token) (r : TaskRequest) (ledger : Ledger) :
    (ρ.worker w).reserved (ρ.request call r) ledger = ρ.worker (w.reserved r ledger) := by
  have hregistry := ρ.registry_insertWaiting w.registry r.taskId
  simp only [Worker.reserved, worker, ← hregistry]
  rfl

theorem submit (numbers : ρ.calls = ρ.number w.calls) (r : TaskRequest) (now : Nat) :
    (ρ.worker w).submit (ρ.request w.calls r) now = ρ.next.change (w.submit r now) := by
  have hcalls : (ρ.worker w).calls = ρ.next.number w.calls := numbers
  have hdecide : (ρ.next.worker w.opened).decide (ρ.request w.calls r) now =
      w.opened.decide r now := ρ.next.decide w.opened w.calls r now
  rw [Worker.submit, Worker.submit, opened, hdecide, hcalls]
  split
  · exact ρ.next.reject w.opened w.calls _
  · rename_i ledger decided
    have hreserved := ρ.next.reserved w.opened w.calls r ledger
    have hacquire := ρ.next.acquire (w.opened.reserved r ledger) w.calls r now
    exact (congrArg (fun w' => Worker.acquire w' _ _ _) hreserved).trans hacquire

theorem waiter? (call : Token) :
    (ρ.worker w).waiter? (ρ.number call) = (w.waiter? call).map ρ.waiter :=
  find?_map_key Waiter.call ρ.waiter ρ.injective (fun _ => rfl) w.waiters call

theorem unqueued (call : Token) :
    (ρ.worker w).unqueued (ρ.number call) = ρ.worker (w.unqueued call) := by
  have hfilter := filter_map_key Waiter.call ρ.waiter ρ.injective (fun _ => rfl) w.waiters call
  simp only [Worker.unqueued, worker, hfilter]

theorem leaveQueue (v : Waiter) :
    (ρ.worker w).leaveQueue (ρ.waiter v) = ρ.change (w.leaveQueue v) := by
  have hgranted : (ρ.waiter v).granted = v.granted := rfl
  have hcall : (ρ.waiter v).call = ρ.number v.call := rfl
  rw [Worker.leaveQueue, Worker.leaveQueue, hgranted, hcall, unqueued]
  split
  · exact ρ.returnSlot _
  · rfl

theorem leave (v : Waiter) : ((ρ.worker w).leaveQueue (ρ.waiter v)).next
      (fun w => w.endTicket (ρ.waiter v).request false) =
    ρ.change ((w.leaveQueue v).next fun w => w.endTicket v.request false) := by
  rw [leaveQueue, change_next]
  exact fun w => ρ.endTicket w v.call v.request false

theorem resume (call : Token) (now : Nat) :
    (ρ.worker w).resume (ρ.number call) now = ρ.change (w.resume call now) := by
  have hclosed : (ρ.worker w).slotsClosed = w.slotsClosed := rfl
  rw [Worker.resume, Worker.resume, waiter?, hclosed]
  cases found : w.waiter? call with
  | none => rfl
  | some v =>
    obtain rfl : v.call = call := (Worker.waiter?_mem found).2
    have hgranted : (ρ.waiter v).granted = v.granted := rfl
    simp only [Option.map_some, leave, hgranted]
    split
    · rw [change_next]
      exact fun w => ρ.reject w v.call .shuttingDown
    · split
      · rw [unqueued]
        exact ρ.launch _ v.call v.request now
      · rfl

theorem abandon (call : Token) :
    (ρ.worker w).abandon (ρ.number call) = ρ.change (w.abandon call) := by
  rw [Worker.abandon, Worker.abandon, waiter?]
  cases found : w.waiter? call with
  | none => rfl
  | some v =>
    simp only [Option.map_some, leave]
    rw [change_next]
    exact fun _ => rfl

theorem execution? (t : Token) :
    (ρ.worker w).execution? (ρ.number t) = (w.execution? t).map ρ.execution :=
  find?_map_key Execution.token ρ.execution ρ.injective (fun _ => rfl) w.running t

theorem contains (ts : List Token) (t : Token) :
    (ts.map ρ.number).contains (ρ.number t) = ts.contains t := by
  rw [Bool.eq_iff_iff, List.contains_iff_mem, List.contains_iff_mem]
  exact List.mem_map_of_injective ρ.injective

theorem moment (t : Token) (body : BodyTurn) (expired : Bool) :
    (ρ.worker w).moment (ρ.number t) body expired = w.moment t body expired := by
  have hcancelled : (ρ.worker w).cancelled.contains (ρ.number t) = w.cancelled.contains t :=
    ρ.contains _ t
  simp only [Worker.moment, Worker.isCancelled, hcancelled]
  rfl

theorem cancelledIf (c : Bool) (t : Token) :
    (ρ.worker w).cancelledIf c (ρ.number t) = ρ.worker (w.cancelledIf c t) := by
  cases c <;> rfl

theorem carriedOn (t : Token) :
    (ρ.worker w).carriedOn (ρ.number t) = ρ.worker (w.carriedOn t) := by
  have hstarted : ∀ x : Execution, (if (ρ.execution x).token = ρ.number t then
      { ρ.execution x with started := true } else ρ.execution x) =
        ρ.execution (if x.token = t then { x with started := true } else x) := by
    intro x
    by_cases ht : x.token = t <;> simp [execution, ρ.injective.eq_iff, ht]
  simp only [Worker.carriedOn, worker, List.map_map, Function.comp_def, hstarted]

theorem beginning (x : Execution) (v : Verdict) : Worker.beginning (ρ.execution x) v =
    (Worker.beginning x v).map (Notice.renumber ρ.number) := by
  have hstarted : (ρ.execution x).started = x.started := rfl
  rw [Worker.beginning, Worker.beginning, hstarted]
  split <;> rfl

theorem totals_countOutcome (t : Totals) (o : Outcome) :
    (ρ.totals t).countOutcome o = ρ.totals (t.countOutcome o) := by
  rcases o with metrics | _ | _ | _ <;> rfl

theorem ended (t : Token) (o : Outcome) :
    (ρ.worker w).ended (ρ.number t) o = ρ.worker (w.ended t o) := by
  have hfilter := filter_map_key Execution.token ρ.execution ρ.injective (fun _ => rfl)
    w.running t
  simp only [Worker.ended, Worker.withTotals, worker, hfilter, totals_countOutcome]

theorem delivering (t : Token) :
    (ρ.worker w).delivering (ρ.number t) = ρ.worker (w.delivering t) := by
  simp [Worker.delivering, worker]

theorem finish (x : Execution) (o : Outcome) (elapsed : Duration) :
    (ρ.worker w).finish (ρ.execution x) o elapsed = ρ.change (w.finish x o elapsed) := by
  have hended : (ρ.worker w).ended (ρ.execution x).token o = ρ.worker (w.ended x.token o) :=
    ρ.ended w x.token o
  have hend : (ρ.worker (w.ended x.token o)).endTicket (ρ.execution x).request true =
      ρ.change ((w.ended x.token o).endTicket x.request true) :=
    ρ.endTicket _ x.token x.request true
  rw [Worker.finish, Worker.finish, hended, hend, change_next]
  intro w
  exact Prod.ext (ρ.delivering w x.token) rfl

theorem turn (t : Token) (body : BodyTurn) (expired : Bool) (elapsed : Duration) :
    (ρ.worker w).turn (ρ.number t) body expired elapsed =
      ρ.change (w.turn t body expired elapsed) := by
  rw [Worker.turn, Worker.turn, execution?]
  cases found : w.execution? t with
  | none => rfl
  | some x =>
    have hlimit : (ρ.worker w).config.timeout = w.config.timeout := rfl
    have hcancels : (ρ.worker w).cancels (w.moment t body expired) =
        w.cancels (w.moment t body expired) := rfl
    simp only [Option.map_some, moment, hlimit, hcancels, cancelledIf, beginning]
    cases decided : ((w.moment t body expired).verdict w.config.timeout).outcome with
    | some o =>
      exact ρ.change_next (c := (_, _)) fun w => ρ.finish w x o elapsed
    | none =>
      refine Prod.ext (ρ.carriedOn _ t) ?_
      simp only [change, List.map_append]
      congr 1
      split <;> rfl

theorem reportEnded (t : Token) (delivered : Bool) :
    (ρ.worker w).reportEnded (ρ.number t) delivered = ρ.change (w.reportEnded t delivered) := by
  have hcontains : (ρ.worker w).reporting.contains (ρ.number t) = w.reporting.contains t :=
    ρ.contains _ t
  have hfilter : (w.reporting.map ρ.number).filter (· ≠ ρ.number t) =
      (w.reporting.filter (· ≠ t)).map ρ.number :=
    filter_map_key (fun u => u) ρ.number ρ.injective (fun _ => rfl) w.reporting t
  have hworker : { ρ.worker w with
      reporting := (w.reporting.map ρ.number).filter (· ≠ ρ.number t) } =
        ρ.worker { w with reporting := w.reporting.filter (· ≠ t) } := by
    rw [hfilter]
    rfl
  rw [Worker.reportEnded, Worker.reportEnded, hcontains]
  split
  · cases delivered with
    | true => exact (congrArg Worker.noteDone hworker).trans (ρ.noteDone _)
    | false =>
      exact (congrArg (fun w => (Worker.withTotals w _).noteDone) hworker).trans
        (ρ.noteDone (Worker.withTotals { w with reporting := w.reporting.filter (· ≠ t) } fun t =>
          { t with reportFailures := t.reportFailures + 1 }))
  · rfl

theorem advanceDrain (d : Drain) :
    (ρ.worker w).advanceDrain (ρ.drain d) = ρ.change (w.advanceDrain d) := by
  have hstage : (ρ.drain d).stage = d.stage := rfl
  have hidle : (ρ.worker w).registry.isEmpty = w.registry.isEmpty := ρ.registry_isEmpty _
  rw [Worker.advanceDrain, Worker.advanceDrain, hstage, executionsDone, hidle]
  split
  · simp [change, worker, drain]
  · split
    · rfl
    · simp [change, worker, drain]

theorem stop : (ρ.worker w).stop = ρ.change w.stop := by
  have hwaiters : ((w.waiters.map ρ.waiter).filter fun v => !v.granted) =
      (w.waiters.filter fun v => !v.granted).map ρ.waiter := by
    rw [List.filter_map]
    rfl
  refine Prod.ext rfl ?_
  simp only [Worker.stop, change, worker, hwaiters, List.map_append, List.map_map]
  congr 1
  · split
    · rfl
    · simp [Function.comp_def, Notice.renumber, waiter]
  · split
    · rfl
    · simp [Function.comp_def, Notice.renumber, execution]

theorem shutdown (numbers : ρ.calls = ρ.number w.calls) :
    (ρ.worker w).shutdown = ρ.next.change w.shutdown := by
  have htokens : (if (ρ.worker w).accepting then (ρ.worker w).registry.tokens else []) =
      (if w.accepting then w.registry.tokens else []).map ρ.number := by
    have hsame := ρ.registry_tokens w.registry
    cases haccepting : w.accepting with
    | true => simpa [worker, haccepting] using hsame
    | false => simp [worker, haccepting]
  have hcalls : (ρ.worker w).calls = ρ.number w.calls := numbers
  simp only [Worker.shutdown, htokens, hcalls, List.length_map]
  generalize (if w.accepting then w.registry.tokens else []) = tokens
  have hworker : { ρ.worker w with
      calls := ρ.number w.calls + 1
      cancelled := tokens.map ρ.number ++ (ρ.worker w).cancelled } =
        ρ.next.worker { w with calls := w.calls + 1, cancelled := tokens ++ w.cancelled } := by
    rw [← numbers]
    simp only [worker, List.map_append]
    rfl
  rw [hworker, stop, change_next]
  exact fun w' => ρ.next.advanceDrain w' ⟨w.calls, tokens.length, .executions, false⟩

theorem resumeDrain (call : Token) :
    (ρ.worker w).resumeDrain (ρ.number call) = ρ.change (w.resumeDrain call) := by
  have hfind : ((ρ.worker w).drains.find? fun d => d.call = ρ.number call) =
      (w.drains.find? fun d => d.call = call).map ρ.drain :=
    find?_map_key Drain.call ρ.drain ρ.injective (fun _ => rfl) w.drains call
  have hfilter : ((ρ.worker w).drains.filter fun d => d.call ≠ ρ.number call) =
      (w.drains.filter fun d => d.call ≠ call).map ρ.drain :=
    filter_map_key Drain.call ρ.drain ρ.injective (fun _ => rfl) w.drains call
  rw [Worker.resumeDrain, Worker.resumeDrain, hfind, hfilter]
  cases found : w.drains.find? fun d => d.call = call with
  | none => rfl
  | some d =>
    have hwoken : (ρ.drain d).woken = d.woken := rfl
    simp only [Option.map_some, hwoken]
    split
    · exact ρ.advanceDrain { w with drains := w.drains.filter fun u => u.call ≠ call } d
    · rfl

theorem drop : (ρ.worker w).drop = ρ.change w.drop := by
  have hcallers : (ρ.worker w).hasCallers = w.hasCallers := by
    simp [Worker.hasCallers, worker]
  have hstopped : (ρ.worker w).stopped = w.stopped := rfl
  rw [Worker.drop, Worker.drop, hcallers, hstopped]
  split
  · rfl
  · split
    · rfl
    · exact ρ.stop { w with dropped := true }

theorem numbered : (ρ.worker w).numbered = ρ.next.worker w.numbered := rfl

def dispatch (call : Token) : Dispatch → Dispatch
  | .request r => .request (ρ.request call r)
  | d => d

theorem message (numbers : ρ.calls = ρ.number w.calls) {m m' : AgentMessage}
    {freshId freshId' : String}
    (same : m'.dispatch freshId' = ρ.dispatch w.calls (m.dispatch freshId)) (now : Nat) :
    (ρ.worker w).message m' freshId' now = ρ.next.change (w.message m freshId now) := by
  have hcalls : (ρ.worker w).calls = ρ.number w.calls := numbers
  rw [Worker.message, Worker.message, same]
  cases m.dispatch freshId with
  | request r => exact ρ.submit w numbers r now
  | malformed fault => rw [hcalls, numbered]; rfl
  | unhandled => rw [hcalls, numbered]; rfl

/-- What becomes of an event that finds `call` calls: a request that it brings has the priority and
the payload of the new call, and a call that it is about has another number. -/
inductive Like (call : Token) : Event → Event → Prop where
  | submit (r : TaskRequest) (now : Nat) :
      Like call (.submit r now) (.submit (ρ.request call r) now)
  | message {m m' : AgentMessage} {freshId freshId' : String} (now : Nat)
      (same : m'.dispatch freshId' = ρ.dispatch call (m.dispatch freshId)) :
      Like call (.message m freshId now) (.message m' freshId' now)
  | resume (other : Token) (now : Nat) :
      Like call (.resume other now) (.resume (ρ.number other) now)
  | abandon (other : Token) : Like call (.abandon other) (.abandon (ρ.number other))
  | turn (t : Token) (body : BodyTurn) (expired : Bool) (elapsed : Duration) :
      Like call (.turn t body expired elapsed) (.turn (ρ.number t) body expired elapsed)
  | reportEnded (t : Token) (delivered : Bool) :
      Like call (.reportEnded t delivered) (.reportEnded (ρ.number t) delivered)
  | shutdown : Like call .shutdown .shutdown
  | resumeDrain (other : Token) :
      Like call (.resumeDrain other) (.resumeDrain (ρ.number other))
  | drop : Like call .drop .drop

end Recast

def Worker.makesCall (w : Worker) : Event → Bool
  | .submit _ _ | .message _ _ _ | .shutdown => !w.dropped
  | _ => false

namespace Recast

variable (ρ : Recast)

def after : Bool → Recast
  | true => ρ.next
  | false => ρ

/-- A worker that is recast does the same, recast in the same way. -/
theorem step {w : Worker} {e e' : Event} (h : ρ.Like w.calls e e')
    (numbers : w.makesCall e = true → ρ.calls = ρ.number w.calls) :
    (ρ.worker w).step e' = (ρ.after (w.makesCall e)).change (w.step e) := by
  have hdropped : (ρ.worker w).dropped = w.dropped := rfl
  cases h with
  | submit r now =>
    cases hw : w.dropped with
    | true => simp [Worker.step, Worker.makesCall, hdropped, hw, after, change]
    | false =>
      have hmakes : w.makesCall (.submit r now) = true := by simp [Worker.makesCall, hw]
      rw [Worker.step, Worker.step, hdropped, hw, hmakes]
      exact ρ.submit w (numbers hmakes) r now
  | @message m m' freshId freshId' now same =>
    cases hw : w.dropped with
    | true => simp [Worker.step, Worker.makesCall, hdropped, hw, after, change]
    | false =>
      have hmakes : w.makesCall (.message m freshId now) = true := by simp [Worker.makesCall, hw]
      rw [Worker.step, Worker.step, hdropped, hw, hmakes]
      exact ρ.message w (numbers hmakes) same now
  | resume other now => exact ρ.resume w other now
  | abandon other => exact ρ.abandon w other
  | turn t body expired elapsed => exact ρ.turn w t body expired elapsed
  | reportEnded t delivered => exact ρ.reportEnded w t delivered
  | shutdown =>
    cases hw : w.dropped with
    | true => simp [Worker.step, Worker.makesCall, hdropped, hw, after, change]
    | false =>
      have hmakes : w.makesCall .shutdown = true := by simp [Worker.makesCall, hw]
      rw [Worker.step, Worker.step, hdropped, hw, hmakes]
      exact ρ.shutdown w (numbers hmakes)
  | resumeDrain other => exact ρ.resumeDrain w other
  | drop => exact ρ.drop w

end Recast

end BoundedWorker
