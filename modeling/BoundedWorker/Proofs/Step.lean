import BoundedWorker.Worker.Step
import Mathlib.Data.List.Induction

/-!
What one step can do, and what a run of many steps keeps. An `Aside` concerns only shutdowns and
reports, and a `View` is a part of the worker in which asides do not show. `Effect` lists the ways
in which an event changes a worker, each with what is known where it branches off; `step_effect`
says that there are no others. `run_induction` carries what every step keeps through a whole run.
-/

namespace BoundedWorker

@[simp] theorem Change.next_fst (c : Change) (f : Worker → Change) :
    (c.next f).1 = (f c.1).1 := rfl

@[simp] theorem Change.next_snd (c : Change) (f : Worker → Change) :
    (c.next f).2 = c.2 ++ (f c.1).2 := rfl

def Notice.isAside : Notice → Bool
  | .returned _ _ | .nudged _ => true
  | _ => false

def Worker.core (w : Worker) : Worker :=
  { w with
    stopped := false
    cancelled := []
    totals := .zero
    reporting := []
    drains := []
    dropped := false }

/-- A change that concerns only shutdowns, reports and counters. -/
structure Aside (w : Worker) (c : Change) : Prop where
  core : c.1.core = w.core
  notices : ∀ n ∈ c.2, n.isAside = true

namespace Worker

variable (w : Worker)

theorem silent_aside {w w' : Worker} (h : w'.core = w.core) : Aside w (w', []) :=
  ⟨h, fun _ hn => absurd hn List.not_mem_nil⟩

theorem wakeDrains_aside (stage : DrainStage) : Aside w (w.wakeDrains stage) := by
  refine ⟨rfl, ?_⟩
  intro n hn
  obtain ⟨d, -, rfl⟩ := List.mem_map.1 hn
  rfl

theorem noteIdle_aside : Aside w w.noteIdle := by
  rw [noteIdle]
  split
  · exact w.wakeDrains_aside _
  · exact silent_aside rfl

theorem noteDone_aside : Aside w w.noteDone := by
  rw [noteDone]
  split
  · exact w.wakeDrains_aside _
  · exact silent_aside rfl

theorem advanceDrain_aside (d : Drain) : Aside w (w.advanceDrain d) := by
  rw [advanceDrain]
  split
  · exact silent_aside rfl
  · split
    · exact ⟨rfl, by simp [Notice.isAside]⟩
    · exact silent_aside rfl

theorem resumeDrain_aside (call : Token) : Aside w (w.resumeDrain call) := by
  rw [resumeDrain]
  split
  · exact silent_aside rfl
  · split
    · exact ⟨(advanceDrain_aside _ _).core, (advanceDrain_aside _ _).notices⟩
    · exact silent_aside rfl

theorem reportEnded_aside (t : Token) (delivered : Bool) : Aside w (w.reportEnded t delivered) := by
  rw [reportEnded]
  split
  · cases delivered with
    | true => exact ⟨(noteDone_aside _).core, (noteDone_aside _).notices⟩
    | false => exact ⟨(noteDone_aside _).core, (noteDone_aside _).notices⟩
  · exact silent_aside rfl

end Worker

structure View (σ α : Type) where
  see : Worker → σ
  hear : Notice → Option α
  see_core : ∀ w, see w.core = see w
  hear_aside : ∀ n, n.isAside = true → hear n = none

namespace View

variable {σ α : Type} (V : View σ α)

def of (c : Change) : σ × List α := (V.see c.1, c.2.filterMap V.hear)

theorem next (c : Change) (f : Worker → Change) :
    V.of (c.next f) = ((V.of (f c.1)).1, (V.of c).2 ++ (V.of (f c.1)).2) := by
  simp [of]

theorem next_eq {c : Change} {f : Worker → Change} (h : ∀ w, V.of (f w) = (V.see w, [])) :
    V.of (c.next f) = V.of c := by
  rw [next, h, List.append_nil]
  rfl

theorem aside {w : Worker} {c : Change} (h : Aside w c) : V.of c = (V.see w, []) := by
  have hsee : V.see c.1 = V.see w := by rw [← V.see_core c.1, h.core, V.see_core]
  exact Prod.ext hsee (List.filterMap_eq_nil_iff.2 fun n hn => V.hear_aside n (h.notices n hn))

theorem endTicket_eq (h : ∀ w, V.of (Worker.returnSlot w) = (V.see w, [])) (w : Worker)
    (r : TaskRequest) (slot : Bool) : V.of (w.endTicket r slot) = V.of (w.releaseResources r) := by
  rw [Worker.endTicket, V.next_eq fun w => V.aside w.noteIdle_aside, V.next_eq]
  intro w
  cases slot with
  | true => exact h w
  | false => rfl

theorem shutdown_eq (w : Worker) : V.of w.shutdown = V.of (Worker.stop { w with
    calls := w.calls + 1
    cancelled := (if w.accepting then w.registry.tokens else []) ++ w.cancelled }) := by
  rw [Worker.shutdown, V.next_eq fun w => V.aside (w.advanceDrain_aside _)]

theorem drop_eq (h : ∀ w, V.of (Worker.stop w) = (V.see w, [])) (w : Worker) :
    V.of w.drop = (V.see w, []) := by
  have hdropped : V.see { w with dropped := true } = V.see w := by
    rw [← V.see_core, ← V.see_core w]
    rfl
  rw [Worker.drop]
  split
  · rfl
  · split
    · exact congrArg (·, []) hdropped
    · exact (h _).trans (congrArg (·, []) hdropped)

end View

def Event.request? : Event → Option (TaskRequest × Nat)
  | .submit r now => some (r, now)
  | .message m freshId now =>
    match m.dispatch freshId with
    | .request r => some (r, now)
    | _ => none
  | _ => none

namespace Worker

inductive Effect (w : Worker) : Event → Change → Prop where
  | idle (e : Event) : Effect w e (w, [])
  | respond (e : Event) (response : AdmissionResponse) :
      Effect w e (w.numbered, [.responded w.calls response])
  | refuse {e : Event} {r : TaskRequest} {now : Nat} {refusal : Refusal}
      (asked : e.request? = some (r, now)) (decided : w.decide r now = .error refusal) :
      Effect w e (w.opened.reject w.calls refusal)
  | queue {e : Event} {r : TaskRequest} {now : Nat} {ledger : Ledger}
      (asked : e.request? = some (r, now)) (decided : w.decide r now = .ok ledger)
      (isOpen : w.slotsClosed = false) (full : w.freeSlots = 0) :
      Effect w e ((w.opened.reserved r ledger).queued w.calls r, [])
  | launch {e : Event} {r : TaskRequest} {now : Nat} {ledger : Ledger}
      (asked : e.request? = some (r, now)) (decided : w.decide r now = .ok ledger)
      (isOpen : w.slotsClosed = false) (free : 0 < w.freeSlots) :
      Effect w e ((w.opened.reserved r ledger).slotTaken.launched w.calls r now,
        [.launched w.calls, .answered w.calls (.ok r.taskId)])
  /-- The slots are closed although the worker still accepts, as in no run. -/
  | turnAway {e : Event} {r : TaskRequest} {now : Nat} {ledger : Ledger}
      (asked : e.request? = some (r, now)) (decided : w.decide r now = .ok ledger)
      (closed : w.slotsClosed = true) :
      Effect w e (((w.opened.reserved r ledger).endTicket r false).next
        (reject w.calls .shuttingDown))
  | resume {call : Token} {now : Nat} {v : Waiter} (found : w.waiter? call = some v)
      (isOpen : w.slotsClosed = false) (granted : v.granted = true) (accepts : w.accepting = true) :
      Effect w (.resume call now) ((w.unqueued call).launched call v.request now,
        [.launched call, .answered call (.ok v.request.taskId)])
  /-- The worker no longer accepts although the slots are still open, as in no run. -/
  | overtake {call : Token} {now : Nat} {v : Waiter} (found : w.waiter? call = some v)
      (isOpen : w.slotsClosed = false) (granted : v.granted = true)
      (refuses : w.accepting = false) :
      Effect w (.resume call now) (((w.unqueued call).endTicket v.request true).next
        (reject call .shuttingDown))
  | closeOut {call : Token} {now : Nat} {v : Waiter} (found : w.waiter? call = some v)
      (closed : w.slotsClosed = true) :
      Effect w (.resume call now) (((w.leaveQueue v).next fun w => w.endTicket v.request false).next
        (reject call .shuttingDown))
  | abandon {call : Token} {v : Waiter} (found : w.waiter? call = some v) :
      Effect w (.abandon call) (((w.leaveQueue v).next fun w => w.endTicket v.request false).next
        fun w => (w, [.abandoned call]))
  | carryOn {t : Token} {body : BodyTurn} {expired : Bool} {x : Execution}
      (elapsed : Duration) (found : w.execution? t = some x)
      (undecided : ((w.moment t body expired).verdict w.config.timeout).outcome = none) :
      Effect w (.turn t body expired elapsed)
        ((w.cancelledIf (w.cancels (w.moment t body expired)) t).carriedOn t,
          beginning x ((w.moment t body expired).verdict w.config.timeout) ++
            if w.cancels (w.moment t body expired) then [.roused t] else [])
  | finish {t : Token} {body : BodyTurn} {expired : Bool} {x : Execution} {o : Outcome}
      (elapsed : Duration) (found : w.execution? t = some x)
      (decided : ((w.moment t body expired).verdict w.config.timeout).outcome = some o) :
      Effect w (.turn t body expired elapsed)
        (Change.next (w.cancelledIf (w.cancels (w.moment t body expired)) t,
          beginning x ((w.moment t body expired).verdict w.config.timeout))
            fun w => w.finish x o elapsed)
  | reportEnded (t : Token) (delivered : Bool) :
      Effect w (.reportEnded t delivered) (w.reportEnded t delivered)
  | shutdown : Effect w .shutdown w.shutdown
  | resumeDrain (call : Token) : Effect w (.resumeDrain call) (w.resumeDrain call)
  | drop : Effect w .drop w.drop

theorem decide_eq_ok {w : Worker} {r : TaskRequest} {now : Nat} {ledger : Ledger}
    (h : w.decide r now = .ok ledger) :
    w.accepting = true ∧ w.registry.contains r.taskId = false ∧
      w.ledger.commit r.required = .ok ledger := by
  rw [decide] at h
  repeat' split at h
  all_goals simp_all

theorem submit_effect {w : Worker} {e : Event} {r : TaskRequest} {now : Nat}
    (asked : e.request? = some (r, now)) : Effect w e (w.submit r now) := by
  have hopened : w.opened.decide r now = w.decide r now := rfl
  rw [submit]
  rw [hopened]
  cases decided : w.decide r now with
  | error refusal => exact .refuse asked decided
  | ok ledger =>
    have haccepting : w.accepting = true := (decide_eq_ok decided).1
    cases closed : w.slotsClosed with
    | true =>
      have hclosed : (w.opened.reserved r ledger).slotsClosed = true := closed
      simp only [acquire, hclosed, if_true]
      exact .turnAway asked decided closed
    | false =>
      have hclosed : (w.opened.reserved r ledger).slotsClosed = false := closed
      have hfree : (w.opened.reserved r ledger).freeSlots = w.freeSlots := rfl
      have haccept : (w.opened.reserved r ledger).slotTaken.accepting = true := haccepting
      by_cases free : 0 < w.freeSlots
      · simp only [acquire, Worker.launch, hclosed, hfree, free, haccept]
        exact .launch asked decided closed free
      · simp only [acquire, hclosed, hfree, free]
        exact .queue asked decided closed (Nat.eq_zero_of_not_pos free)

theorem resume_effect (w : Worker) (call : Token) (now : Nat) :
    Effect w (.resume call now) (w.resume call now) := by
  rw [Worker.resume]
  cases found : w.waiter? call with
  | none => exact .idle _
  | some v =>
    cases closed : w.slotsClosed with
    | true => exact .closeOut found closed
    | false =>
      cases granted : v.granted with
      | false => simpa [granted] using Effect.idle (w := w) (.resume call now)
      | true =>
        cases accepts : w.accepting with
        | true =>
          have haccept : (w.unqueued call).accepting = true := accepts
          simp only [Worker.launch, granted, haccept]
          exact .resume found closed granted accepts
        | false =>
          have haccept : (w.unqueued call).accepting = false := accepts
          simp only [Worker.launch, granted, haccept]
          exact .overtake found closed granted accepts

theorem turn_effect (w : Worker) (t : Token) (body : BodyTurn) (expired : Bool)
    (elapsed : Duration) :
    Effect w (.turn t body expired elapsed) (w.turn t body expired elapsed) := by
  rw [turn]
  cases found : w.execution? t with
  | none => exact .idle _
  | some x =>
    dsimp only
    cases decided : ((w.moment t body expired).verdict w.config.timeout).outcome with
    | none => exact .carryOn elapsed found decided
    | some o => exact .finish elapsed found decided

theorem step_effect (w : Worker) (e : Event) : Effect w e (w.step e) := by
  cases e with
  | submit r now =>
    simp only [step]
    split
    · exact .idle _
    · exact submit_effect rfl
  | message m freshId now =>
    simp only [step, message]
    split
    · exact .idle _
    · cases hm : m.dispatch freshId with
      | request r => exact submit_effect (by simp [Event.request?, hm])
      | malformed fault => exact .respond _ _
      | unhandled => exact .respond _ _
  | resume call now => exact w.resume_effect call now
  | abandon call =>
    simp only [step, Worker.abandon]
    cases found : w.waiter? call with
    | none => exact .idle _
    | some v => exact .abandon found
  | turn t body expired elapsed => exact w.turn_effect t body expired elapsed
  | reportEnded t delivered => exact .reportEnded t delivered
  | shutdown =>
    simp only [step]
    split
    · exact .idle _
    · exact .shutdown
  | resumeDrain call => exact .resumeDrain call
  | drop => exact .drop

theorem start_eq {meter : Meter} {config : Config} {w : Worker}
    (h : start meter config = .ok w) : w = {
      config
      ledger := .new meter config.limits
      registry := .empty
      accepting := true
      freeSlots := config.maxConcurrentTasks.toNat
      slotsClosed := false
      stopped := false
      cancelled := []
      totals := .zero
      calls := 0
      waiters := []
      running := []
      reporting := []
      drains := []
      dropped := false } := by
  rw [start] at h
  split at h
  · cases h
  · exact (Except.ok.inj h).symm

theorem run_append (w : Worker) (earlier later : List Event) :
    w.run (earlier ++ later) = (w.run earlier).next fun w => w.run later := by
  induction earlier generalizing w with
  | nil => simp [run, Change.next]
  | cons e rest ih =>
    simp only [List.cons_append, run, Change.next, ih, List.append_assoc]

theorem run_snoc (w : Worker) (events : List Event) (e : Event) :
    w.run (events ++ [e]) = (w.run events).next fun w => w.step e := by
  rw [run_append]
  simp [run, Change.next]

theorem run_induction {w : Worker} {P : List Event → Change → Prop} (nil : P [] (w, []))
    (snoc : ∀ events e, P events (w.run events) →
      P (events ++ [e]) ((w.run events).next fun w => w.step e)) (events : List Event) :
    P events (w.run events) := by
  induction events using List.reverseRecOn with
  | nil => exact nil
  | append_singleton events e ih => exact w.run_snoc events e ▸ snoc events e ih

theorem exists_step_of_mem_run {w : Worker} {events : List Event} {n : Notice}
    (h : n ∈ (w.run events).2) : ∃ earlier e later, events = earlier ++ e :: later ∧
      n ∈ ((w.run earlier).1.step e).2 := by
  induction events generalizing w with
  | nil => simp [run] at h
  | cons e rest ih =>
    simp only [run, Change.next_snd, List.mem_append] at h
    rcases h with h | h
    · exact ⟨[], e, rest, rfl, h⟩
    · obtain ⟨earlier, d, later, rfl, hd⟩ := ih h
      exact ⟨e :: earlier, d, later, rfl, hd⟩

end Worker

end BoundedWorker
