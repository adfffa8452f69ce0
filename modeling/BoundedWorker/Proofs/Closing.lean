import BoundedWorker.Proofs.Stories

/-!
Closing. A worker stops accepting, handing out slots and letting its executions run in one step, and
for good. `Closing` lists what can still happen to a worker that is stopped: nobody is admitted,
whoever waits is turned away, and an execution that gets a turn is cancelled. `Roll.Ebb` says the
same of the calls alone.
-/

namespace BoundedWorker

def Drain.wake (stage : DrainStage) (d : Drain) : Drain :=
  if d.stage = stage then { d with woken := true } else d

@[simp] theorem Drain.wake_call (stage : DrainStage) (d : Drain) :
    (d.wake stage).call = d.call := by
  rw [wake]
  split <;> rfl

@[simp] theorem Drain.wake_cancelled (stage : DrainStage) (d : Drain) :
    (d.wake stage).cancelled = d.cancelled := by
  rw [wake]
  split <;> rfl

@[simp] theorem Drain.wake_stage (stage : DrainStage) (d : Drain) :
    (d.wake stage).stage = d.stage := by
  rw [wake]
  split <;> rfl

def Event.mayReturn : Event → Bool
  | .shutdown | .resumeDrain _ => true
  | _ => false

def Event.maySwitch : Event → Bool
  | .shutdown | .resumeDrain _ | .drop => true
  | _ => false

theorem Moment.verdict_cancelled {m : Moment} (h : m.cancelled = true) (limit : Duration) :
    m.verdict limit = ⟨some (.failed .cancelled), false, false⟩ := by
  rw [verdict, if_pos h]

namespace Worker

/-- A worker to which a request has given back what it held. Slots and those who wait for them are
left open. -/
def settled (w : Worker) (r : TaskRequest) (freeSlots : Nat) (waiters : List Waiter) : Worker :=
  { w with
    ledger := (w.ledger.release r.required).1
    registry := (w.registry.remove r.taskId).1
    freeSlots
    waiters
    drains := if (w.registry.remove r.taskId).1.isEmpty then w.drains.map (Drain.wake .reservations)
      else w.drains }

variable (w : Worker)

theorem returnSlot_fst : ∃ freeSlots waiters, w.returnSlot.1 = { w with freeSlots, waiters } := by
  rw [returnSlot]
  split
  · exact ⟨_, _, rfl⟩
  · split
    · exact ⟨_, _, rfl⟩
    · exact ⟨_, _, rfl⟩

theorem noteIdle_fst : w.noteIdle.1 = { w with
    drains := if w.registry.isEmpty then w.drains.map (Drain.wake .reservations)
      else w.drains } := by
  rw [noteIdle]
  split <;> rfl

theorem endTicket_fst (r : TaskRequest) (slot : Bool) :
    ∃ freeSlots waiters, (w.endTicket r slot).1 = w.settled r freeSlots waiters := by
  cases slot with
  | true =>
    obtain ⟨freeSlots, waiters, hslot⟩ := (w.releaseResources r).1.returnSlot_fst
    refine ⟨freeSlots, waiters, ?_⟩
    simp only [endTicket, Change.next_fst, if_true, hslot, noteIdle_fst]
    rfl
  | false =>
    refine ⟨w.freeSlots, w.waiters, ?_⟩
    simp only [endTicket, Change.next_fst, noteIdle_fst]
    rfl

theorem leave_fst (v : Waiter) (r : TaskRequest) : ∃ freeSlots waiters,
    ((w.leaveQueue v).next fun w => w.endTicket r false).1 = w.settled r freeSlots waiters := by
  have hleave : ∃ freeSlots waiters, (w.leaveQueue v).1 = { w with freeSlots, waiters } := by
    rw [leaveQueue]
    split
    · obtain ⟨freeSlots, waiters, hslot⟩ := (w.unqueued v.call).returnSlot_fst
      exact ⟨freeSlots, waiters, hslot⟩
    · exact ⟨_, _, rfl⟩
  obtain ⟨freeSlots, waiters, hleave⟩ := hleave
  obtain ⟨freeSlots', waiters', hend⟩ := (w.leaveQueue v).1.endTicket_fst r false
  refine ⟨freeSlots', waiters', ?_⟩
  rw [Change.next_fst, hend, hleave]
  rfl

theorem finish_fst (x : Execution) (o : Outcome) (elapsed : Duration) : ∃ freeSlots waiters,
    (w.finish x o elapsed).1 =
      ((w.ended x.token o).settled x.request freeSlots waiters).delivering x.token := by
  obtain ⟨freeSlots, waiters, hend⟩ := (w.ended x.token o).endTicket_fst x.request true
  exact ⟨freeSlots, waiters, by rw [finish, Change.next_fst, hend]⟩

theorem noteDone_fst : w.noteDone.1 = { w with
    drains := if w.stopped && w.executionsDone then w.drains.map (Drain.wake .executions)
      else w.drains } := by
  rw [noteDone]
  split <;> rfl

/-- The shutdowns that have not returned, with what each is to return. -/
def dues (w : Worker) : List (Token × Nat) := w.drains.map fun d => (d.call, d.cancelled)

structure Switches where
  accepting : Bool
  slotsClosed : Bool
  stopped : Bool
  dropped : Bool
  dues : List (Token × Nat)

def switches (w : Worker) : Switches :=
  ⟨w.accepting, w.slotsClosed, w.stopped, w.dropped, w.dues⟩

theorem wake_dues (stage : DrainStage) :
    dues { w with drains := w.drains.map (Drain.wake stage) } = w.dues := by
  simp [dues, Function.comp_def]

theorem settled_switches (r : TaskRequest) (freeSlots : Nat) (waiters : List Waiter) :
    (w.settled r freeSlots waiters).switches = w.switches := by
  rw [settled]
  split
  · exact congrArg (Switches.mk _ _ _ _) (w.wake_dues _)
  · rfl

/-- What stays as it is when somebody gives a reservation back. -/
structure Rest where
  switches : Switches
  cancelled : List Token
  reporting : List Token

def rest (w : Worker) : Rest := ⟨w.switches, w.cancelled, w.reporting⟩

theorem settled_rest (r : TaskRequest) (freeSlots : Nat) (waiters : List Waiter) :
    (w.settled r freeSlots waiters).rest = w.rest :=
  congrArg (Rest.mk · w.cancelled w.reporting) (w.settled_switches r freeSlots waiters)

theorem endTicket_rest (r : TaskRequest) (slot : Bool) : (w.endTicket r slot).1.rest = w.rest := by
  obtain ⟨freeSlots, waiters, hend⟩ := w.endTicket_fst r slot
  rw [hend, settled_rest]

theorem leave_rest (v : Waiter) (r : TaskRequest) :
    ((w.leaveQueue v).next fun w => w.endTicket r false).1.rest = w.rest := by
  obtain ⟨freeSlots, waiters, hleave⟩ := w.leave_fst v r
  rw [hleave, settled_rest]

theorem finish_rest (x : Execution) (o : Outcome) (elapsed : Duration) :
    (w.finish x o elapsed).1.rest = { w.rest with reporting := w.reporting ++ [x.token] } :=
  congrArg (fun r : Rest => { r with reporting := r.reporting ++ [x.token] })
    ((w.ended x.token o).endTicket_rest x.request true)

theorem finish_switches (x : Execution) (o : Outcome) (elapsed : Duration) :
    (w.finish x o elapsed).1.switches = w.switches :=
  congrArg Rest.switches (w.finish_rest x o elapsed)

theorem finish_cancelled (x : Execution) (o : Outcome) (elapsed : Duration) :
    (w.finish x o elapsed).1.cancelled = w.cancelled :=
  congrArg Rest.cancelled (w.finish_rest x o elapsed)

theorem finish_reporting (x : Execution) (o : Outcome) (elapsed : Duration) :
    (w.finish x o elapsed).1.reporting = w.reporting ++ [x.token] :=
  congrArg Rest.reporting (w.finish_rest x o elapsed)

theorem cancelledIf_switches (c : Bool) (t : Token) :
    (w.cancelledIf c t).switches = w.switches := by
  cases c <;> rfl

theorem reportEnded_switches (t : Token) (delivered : Bool) :
    (w.reportEnded t delivered).1.switches = w.switches := by
  have hnote : ∀ w : Worker, w.noteDone.1.switches = w.switches := by
    intro w
    rw [noteDone_fst]
    split
    · exact congrArg (Switches.mk _ _ _ _) (w.wake_dues _)
    · rfl
  rw [reportEnded]
  split
  · cases delivered with
    | true => exact hnote _
    | false => exact hnote _
  · rfl

variable {w : Worker}

theorem cancelledIf_cancelled {c : Bool} {t u : Token} (mem : u ∈ (w.cancelledIf c t).cancelled) :
    u ∈ w.cancelled ∨ u = t := by
  cases c with
  | true => exact (List.mem_cons.1 mem).symm
  | false => exact .inl mem

theorem step_switches {e : Event} (keeps : e.maySwitch = false) :
    (w.step e).1.switches = w.switches := by
  have heffect := w.step_effect e
  generalize w.step e = change at heffect ⊢
  cases heffect with
  | idle | respond | refuse | queue | launch | resume => rfl
  | @turnAway _ r now ledger asked decided closed =>
    exact congrArg Rest.switches ((w.opened.reserved r ledger).endTicket_rest r false)
  | @overtake call now v found isOpen granted refuses =>
    exact congrArg Rest.switches ((w.unqueued call).endTicket_rest v.request true)
  | @closeOut call now v found closed =>
    exact congrArg Rest.switches (w.leave_rest v v.request)
  | @abandon call v found => exact congrArg Rest.switches (w.leave_rest v v.request)
  | @carryOn t body expired x elapsed found undecided => exact w.cancelledIf_switches _ t
  | @finish t body expired x o elapsed found decided =>
    rw [Change.next_fst, finish_switches, cancelledIf_switches]
  | reportEnded t delivered => exact w.reportEnded_switches t delivered
  | shutdown | resumeDrain | drop => cases keeps

/-- A worker accepts, hands out slots and lets its executions run, or does none of the three. Nobody
waits for the end while it accepts. Every run keeps this, as a step stops the worker as a whole, so
none comes to the effects `turnAway` and `overtake`. -/
structure Switched (w : Worker) : Prop where
  slots : w.slotsClosed = !w.accepting
  stopped : w.stopped = !w.accepting
  dropped : w.dropped = true → w.accepting = false
  drains : w.accepting = true → w.drains = []

structure Serving (w : Worker) : Prop where
  accepts : w.accepting = true
  isOpen : w.slotsClosed = false
  lives : w.stopped = false
  remains : w.dropped = false

structure Stopped (w : Worker) : Prop where
  refuses : w.accepting = false
  closed : w.slotsClosed = true
  cancels : w.stopped = true

namespace Switched

theorem of_switches {w' : Worker} (h : w.Switched) (he : w'.switches = w.switches) :
    w'.Switched := by
  have haccepting : w'.accepting = w.accepting := congrArg Switches.accepting he
  have hclosed : w'.slotsClosed = w.slotsClosed := congrArg Switches.slotsClosed he
  have hstopped : w'.stopped = w.stopped := congrArg Switches.stopped he
  have hdropped : w'.dropped = w.dropped := congrArg Switches.dropped he
  have hdues : w'.dues = w.dues := congrArg Switches.dues he
  refine ⟨?_, ?_, ?_, fun accepts => ?_⟩
  · rw [hclosed, haccepting]
    exact h.slots
  · rw [hstopped, haccepting]
    exact h.stopped
  · rw [hdropped, haccepting]
    exact h.dropped
  · have hnone := h.drains (haccepting ▸ accepts)
    simpa [dues, hnone] using hdues

theorem stopped_of_refuses (h : w.Switched) (refuses : w.accepting = false) : w.Stopped :=
  ⟨refuses, by rw [h.slots, refuses]; rfl, by rw [h.stopped, refuses]; rfl⟩

theorem stopped_of_closed (h : w.Switched) (closed : w.slotsClosed = true) : w.Stopped :=
  h.stopped_of_refuses (by simpa [closed] using h.slots)

theorem serving_of_accepts (h : w.Switched) (accepts : w.accepting = true) : w.Serving where
  accepts
  isOpen := by rw [h.slots, accepts]; rfl
  lives := by rw [h.stopped, accepts]; rfl
  remains := by
    cases hdropped : w.dropped with
    | false => rfl
    | true => exact absurd accepts (by simp [h.dropped hdropped])

theorem serving_of_open (h : w.Switched) (isOpen : w.slotsClosed = false) : w.Serving :=
  h.serving_of_accepts (by simpa [isOpen] using h.slots)

theorem serving_of_decided (h : w.Switched) {r : TaskRequest} {now : Nat} {ledger : Ledger}
    (decided : w.decide r now = .ok ledger) : w.Serving :=
  h.serving_of_accepts (decide_eq_ok decided).1

theorem stopped_of_drain (h : w.Switched) {d : Drain} (hd : d ∈ w.drains) : w.Stopped := by
  refine h.stopped_of_refuses ?_
  cases accepts : w.accepting with
  | false => rfl
  | true => simp [h.drains accepts] at hd

end Switched

theorem advanceDrain_fst (w : Worker) (d : Drain) :
    ∃ drains, (w.advanceDrain d).1 = { w with drains } := by
  rw [advanceDrain]
  split
  · exact ⟨_, rfl⟩
  · split
    · exact ⟨_, rfl⟩
    · exact ⟨_, rfl⟩

theorem resumeDrain_fst (w : Worker) (call : Token) :
    ∃ drains, (w.resumeDrain call).1 = { w with drains } := by
  rw [resumeDrain]
  split
  · exact ⟨_, rfl⟩
  · split
    · obtain ⟨drains, hdrain⟩ := advanceDrain_fst _ _
      exact ⟨drains, hdrain⟩
    · exact ⟨_, rfl⟩

theorem Stopped.of_switches {w' : Worker} (h : w.Stopped) (he : w'.switches = w.switches) :
    w'.Stopped :=
  ⟨(congrArg Switches.accepting he).trans h.refuses,
    (congrArg Switches.slotsClosed he).trans h.closed,
    (congrArg Switches.stopped he).trans h.cancels⟩

theorem stop_stopped (w : Worker) : w.stop.1.Stopped := ⟨rfl, rfl, rfl⟩

theorem Stopped.switched (h : w.Stopped) : w.Switched :=
  ⟨by rw [h.closed, h.refuses]; rfl, by rw [h.cancels, h.refuses]; rfl, fun _ => h.refuses,
    fun accepts => absurd accepts (by simp [h.refuses])⟩

theorem step_shutdown {w : Worker} (remains : w.dropped = false) :
    w.step .shutdown = w.shutdown := by
  rw [step, if_neg (by simp [remains])]

theorem step_request {w : Worker} (remains : w.dropped = false) {e : Event} {r : TaskRequest}
    {now : Nat} (asked : e.request? = some (r, now)) : w.step e = w.submit r now := by
  cases e with
  | submit r' now' =>
    obtain ⟨rfl, rfl⟩ := Prod.mk.inj (Option.some.inj asked)
    simp [step, remains]
  | message m freshId now' =>
    rw [Event.request?] at asked
    simp only [step, remains, message]
    split at asked
    · obtain ⟨rfl, rfl⟩ := Prod.mk.inj (Option.some.inj asked)
      simp [*]
    · cases asked
  | _ => cases asked

theorem shutdown_fst (w : Worker) : ∃ drains, w.shutdown.1 = { w with
    accepting := false
    slotsClosed := true
    stopped := true
    cancelled := (if w.accepting then w.registry.tokens else []) ++ w.cancelled
    calls := w.calls + 1
    drains } := by
  rw [shutdown, Change.next_fst]
  obtain ⟨drains, hdrain⟩ := advanceDrain_fst (stop _).1 _
  exact ⟨drains, hdrain⟩

theorem shutdown_stopped (w : Worker) : w.shutdown.1.Stopped := by
  obtain ⟨drains, hshutdown⟩ := w.shutdown_fst
  rw [hshutdown]
  exact ⟨rfl, rfl, rfl⟩

theorem Stopped.resumeDrain (h : w.Stopped) (call : Token) : (w.resumeDrain call).1.Stopped := by
  obtain ⟨drains, hdrain⟩ := w.resumeDrain_fst call
  rw [hdrain]
  exact ⟨h.refuses, h.closed, h.cancels⟩

theorem drop_of_callers (h : w.hasCallers = true) : w.drop = (w, []) := by
  rw [Worker.drop, if_pos h]

theorem Switched.drop_stopped (hs : w.Switched) (h : w.hasCallers = false) :
    w.drop.1.Stopped := by
  rw [Worker.drop, if_neg (by simp [h])]
  cases hstopped : w.stopped with
  | true =>
    have hnow := hs.stopped_of_refuses (by simpa [hstopped] using hs.stopped)
    rw [if_pos rfl]
    exact ⟨hnow.refuses, hnow.closed, rfl⟩
  | false =>
    rw [if_neg Bool.false_ne_true]
    exact stop_stopped _

theorem step_switched (h : w.Switched) (e : Event) : (w.step e).1.Switched := by
  cases e with
  | shutdown =>
    rw [step]
    split
    · exact h
    · exact w.shutdown_stopped.switched
  | resumeDrain call =>
    cases found : w.drains.find? fun d => d.call = call with
    | none =>
      simp only [step, resumeDrain, found]
      exact h
    | some d =>
      have hstopped := h.stopped_of_drain (List.mem_of_find?_eq_some found)
      exact (hstopped.resumeDrain call).switched
  | drop =>
    rw [step]
    cases hcallers : w.hasCallers with
    | true => exact (drop_of_callers hcallers).symm ▸ h
    | false => exact (h.drop_stopped hcallers).switched
  | _ => exact h.of_switches (step_switches rfl)

theorem start_switched {meter : Meter} {config : Config} (h : start meter config = .ok w) :
    w.Switched := by
  rw [start_eq h]
  exact ⟨rfl, rfl, nofun, fun _ => rfl⟩

theorem run_switched (h : w.Switched) (events : List Event) : (w.run events).1.Switched :=
  run_induction (P := fun _ c => c.1.Switched) h (fun _ e ih => step_switched ih e) events

inductive Closing (w : Worker) : Event → Change → Prop where
  | idle (e : Event) : Closing w e (w, [])
  | respond (e : Event) (response : AdmissionResponse) :
      Closing w e (w.numbered, [.responded w.calls response])
  | refuse {e : Event} {r : TaskRequest} {now : Nat} {refusal : Refusal}
      (asked : e.request? = some (r, now)) (decided : w.decide r now = .error refusal) :
      Closing w e (w.opened.reject w.calls refusal)
  | closeOut {call : Token} {now : Nat} {v : Waiter} (found : w.waiter? call = some v) :
      Closing w (.resume call now)
        (((w.leaveQueue v).next fun w => w.endTicket v.request false).next
          (reject call .shuttingDown))
  | abandon {call : Token} {v : Waiter} (found : w.waiter? call = some v) :
      Closing w (.abandon call) (((w.leaveQueue v).next fun w => w.endTicket v.request false).next
        fun w => (w, [.abandoned call]))
  | finish {t : Token} {body : BodyTurn} {expired : Bool} {x : Execution} (elapsed : Duration)
      (found : w.execution? t = some x) :
      Closing w (.turn t body expired elapsed) (w.finish x (.failed .cancelled) elapsed)
  | reportEnded (t : Token) (delivered : Bool) :
      Closing w (.reportEnded t delivered) (w.reportEnded t delivered)
  | shutdown : Closing w .shutdown (w.numbered.advanceDrain ⟨w.calls, 0, .executions, false⟩)
  | resumeDrain {call : Token} {d : Drain}
      (found : (w.drains.find? fun d => d.call = call) = some d) (woken : d.woken = true) :
      Closing w (.resumeDrain call)
        ({ w with drains := w.drains.filter fun u => u.call ≠ call }.advanceDrain d)
  | drop : Closing w .drop ({ w with dropped := true }, [])

theorem Stopped.shutdown (h : w.Stopped) :
    w.shutdown = w.numbered.advanceDrain ⟨w.calls, 0, .executions, false⟩ := by
  have hstop : { w.numbered with accepting := false, slotsClosed := true, stopped := true } =
      w.numbered := by
    have refuses := h.refuses
    have closed := h.closed
    have cancels := h.cancels
    cases w
    simp only at refuses closed cancels
    rw [refuses, closed, cancels]
    rfl
  simp only [Worker.shutdown, Change.next, stop, h.refuses, h.closed, h.cancels, if_true,
    Bool.false_eq_true, if_false, List.nil_append, List.length_nil]
  exact congrArg (fun w => Worker.advanceDrain w _) hstop

theorem Stopped.turn (h : w.Stopped) {t : Token} {x : Execution} (found : w.execution? t = some x)
    (body : BodyTurn) (expired : Bool) (elapsed : Duration) :
    w.turn t body expired elapsed = w.finish x (.failed .cancelled) elapsed := by
  have hcancelled : (w.moment t body expired).cancelled = true := by
    simp [moment, isCancelled, h.cancels]
  have hcancels : w.cancels (w.moment t body expired) = false := by
    simp [Worker.cancels, hcancelled]
  simp only [Worker.turn, found, Moment.verdict_cancelled hcancelled, hcancels]
  rfl

theorem step_closing (h : w.Stopped) (e : Event) : w.Closing e (w.step e) := by
  have heffect := w.step_effect e
  generalize hchange : w.step e = change at heffect ⊢
  cases heffect with
  | idle => exact .idle _
  | respond e response => exact .respond e response
  | refuse asked decided => exact .refuse asked decided
  | queue asked decided => exact absurd (decide_eq_ok decided).1 (by simp [h.refuses])
  | launch asked decided => exact absurd (decide_eq_ok decided).1 (by simp [h.refuses])
  | turnAway asked decided => exact absurd (decide_eq_ok decided).1 (by simp [h.refuses])
  | resume found isOpen => exact absurd isOpen (by simp [h.closed])
  | overtake found isOpen => exact absurd isOpen (by simp [h.closed])
  | closeOut found closed => exact .closeOut found
  | abandon found => exact .abandon found
  | @carryOn t body expired x elapsed found undecided =>
    have hcancelled : (w.moment t body expired).cancelled = true := by
      simp [moment, isCancelled, h.cancels]
    simp [Moment.verdict_cancelled hcancelled] at undecided
  | @finish t body expired x o elapsed found decided =>
    rw [← hchange, step, h.turn found]
    exact .finish elapsed found
  | reportEnded t delivered => exact .reportEnded t delivered
  | shutdown =>
    rw [h.shutdown]
    exact .shutdown
  | resumeDrain call =>
    rw [resumeDrain]
    split
    · exact .idle _
    · split
      · exact .resumeDrain ‹_› ‹_›
      · exact .idle _
  | drop =>
    rw [Worker.drop]
    split
    · exact .idle _
    · rw [if_pos h.cancels]
      exact .drop

theorem step_stopped (h : w.Stopped) (e : Event) : (w.step e).1.Stopped := by
  cases e with
  | shutdown =>
    rw [step]
    split
    · exact h
    · exact w.shutdown_stopped
  | resumeDrain call => exact h.resumeDrain call
  | drop =>
    rw [step]
    cases hcallers : w.hasCallers with
    | true => exact (drop_of_callers hcallers).symm ▸ h
    | false => exact h.switched.drop_stopped hcallers
  | _ => exact h.of_switches (step_switches rfl)

theorem run_stopped (h : w.Stopped) (events : List Event) : (w.run events).1.Stopped :=
  run_induction (P := fun _ c => c.1.Stopped) h (fun _ e ih => step_stopped ih e) events

end Worker

inductive Roll.Ebb (r : Roll) : Roll × List Notice → Prop where
  | stay : Ebb r (r, [])
  | number : Ebb r (r.number, [])
  | refuse (refusal : Refusal) : Ebb r (r.number, [.answered r.calls (.error refusal)])
  | turnAway {t : Ticket} (mem : t ∈ r.waiting) :
      Ebb r (r.without t.call, [.answered t.call (.error .shuttingDown)])
  | abandon {t : Ticket} (mem : t ∈ r.waiting) : Ebb r (r.without t.call, [.abandoned t.call])
  | finish {x : Execution} (mem : x ∈ r.running) (elapsed : Duration) :
      Ebb r (r.ended x.token,
        [.reported x.token ((Outcome.failed .cancelled).toResult x.request.taskId elapsed)])

theorem Worker.step_ebb {w : Worker} (h : w.Stopped) (e : Event) :
    w.roll.Ebb (rollView.of (w.step e)) := by
  have hclosing := step_closing h e
  generalize w.step e = change at hclosing ⊢
  cases hclosing with
  | idle => exact .stay
  | respond => exact .number
  | refuse asked decided => exact .refuse _
  | @closeOut call now v found =>
    obtain ⟨mem, rfl⟩ := waiter?_mem found
    rw [next_reject_roll, leave_roll]
    exact .turnAway (t := v.ticket) mem
  | @abandon call v found =>
    obtain ⟨mem, rfl⟩ := waiter?_mem found
    rw [next_abandoned_roll, leave_roll]
    exact .abandon (t := v.ticket) mem
  | @finish t body expired x elapsed found =>
    have mem : x ∈ w.roll.running := List.mem_of_find?_eq_some found
    rw [finish_roll]
    exact .finish mem elapsed
  | reportEnded t delivered =>
    rw [rollView.aside (w.reportEnded_aside t delivered)]
    exact .stay
  | shutdown =>
    rw [rollView.aside (advanceDrain_aside _ _)]
    exact .number
  | @resumeDrain call d found woken =>
    rw [rollView.aside (advanceDrain_aside _ d)]
    exact .stay
  | drop => exact .stay

end BoundedWorker
