import BoundedWorker.Proofs.Closing
import BoundedWorker.Proofs.Slots

/-!
Bystanders. A task that ends, in whatever way, takes its own things along and leaves those of all
other tasks alone: `Leaves` says so of a worker before and after. The slot that it held is free at
first. Handing it to somebody who waits, `handOut`, is what the step does last.
-/

namespace BoundedWorker

theorem Moment.cancelledAfter_of_timeout {m : Moment} {limit : Duration} {after : Duration}
    (h : (m.verdict limit).outcome = some (.failed (.timeout after))) :
    m.cancelled = false ∧ m.cancelledAfter limit = true := by
  have hcancels : m.cancelled = false ∧ (m.verdict limit).cancels = true := by
    rw [verdict] at h ⊢
    cases hcancelled : m.cancelled with
    | true => simp [hcancelled] at h
    | false =>
      cases hfinish : m.body.finish with
      | some e => cases e <;> simp [hcancelled, hfinish, BodyEnd.outcome] at h
      | none =>
        cases hexpired : m.expired with
        | true => simp
        | false => simp [hcancelled, hfinish, hexpired] at h
  exact ⟨hcancels.1, by simp [cancelledAfter, hcancels.2]⟩

namespace Worker

/-- A free slot goes to the submission that waits longest without one. -/
def handOut (w : Worker) : Worker :=
  if w.slotsClosed then w
  else match grantFirst w.waiters with
    | (waiters, some _) => { w with waiters, freeSlots := w.freeSlots - 1 }
    | (_, none) => w

def holdsSlot (w : Worker) (call : Token) : Bool :=
  (w.execution? call).isSome || (w.waiter? call).any (·.granted)

def vacated (w : Worker) (a : Ticket) : Worker :=
  { w with
    ledger := (w.ledger.release a.request.required).1
    registry := (w.registry.remove a.id).1
    freeSlots := w.freeSlots + if w.holdsSlot a.call then 1 else 0
    waiters := w.waiters.filter fun v => v.call ≠ a.call
    running := w.running.filter fun x => x.token ≠ a.call }

/-- The ways in which a task ends, with the outcome if it has run: its execution has an outcome, its
wait is abandoned, or it is turned away by closed slots. -/
inductive Ends (w : Worker) : Ticket → Option Outcome → Event → Prop where
  | finish {x : Execution} {body : BodyTurn} {expired : Bool} {o : Outcome} (elapsed : Duration)
      (mem : x ∈ w.running)
      (decided : ((w.moment x.token body expired).verdict w.config.timeout).outcome = some o) :
      Ends w x.ticket (some o) (.turn x.token body expired elapsed)
  | abandon {v : Waiter} (mem : v ∈ w.waiters) : Ends w v.ticket none (.abandon v.call)
  | closeOut {v : Waiter} (now : Nat) (mem : v ∈ w.waiters) (closed : w.slotsClosed = true) :
      Ends w v.ticket none (.resume v.call now)

/-- A task has its entry in the registry, its ticket, its execution and its token, cancelled or not,
as before. -/
structure Spares (w w' : Worker) (b : Ticket) : Prop where
  entry : w'.registry.entryOf b.id = w.registry.entryOf b.id
  ticket : b ∈ w'.tickets
  execution : w'.execution? b.call = w.execution? b.call
  token : w'.isCancelled b.call = w.isCancelled b.call

/-- A task goes, and takes along its units and its slot. Whoever waits has a slot or has none, as
before. -/
structure Leaves (w w' : Worker) (a : Ticket) : Prop where
  gone : a ∉ w'.tickets
  spares : ∀ b ∈ w.tickets, b ≠ a → w.Spares w' b
  waiters : ∀ b ∈ w.tickets, b ≠ a → w'.waiter? b.call = w.waiter? b.call
  committed : ∀ kind,
    w'.ledger.committed kind + a.units w.ledger.meter kind = w.ledger.committed kind
  slots : w'.freeSlots = w.freeSlots + if w.holdsSlot a.call then 1 else 0
  tokens : ∀ t, t ≠ a.call → w'.isCancelled t = w.isCancelled t
  stopped : w'.stopped = w.stopped

variable {w : Worker}

theorem vacated_books (w : Worker) (a : Ticket) : (w.vacated a).books = w.books.close a := by
  simp only [books, vacated, map_ticket_filter, Books.close, Books.release, Ticket.without,
    List.filter_map]
  rfl

theorem vacated_leaves (hb : w.books.Sound) {a : Ticket} (ha : a ∈ w.tickets) {w' : Worker}
    (hcore : w'.core = (w.vacated a).core) (stopped : w'.stopped = w.stopped)
    (cancelled : ∀ t, t ≠ a.call → (t ∈ w'.cancelled ↔ t ∈ w.cancelled)) : w.Leaves w' a := by
  have hbooks : w'.books = w.books.close a :=
    (congrArg Worker.books hcore).trans (w.vacated_books a)
  have hwaiters : w'.waiters = w.waiters.filter fun v => v.call ≠ a.call :=
    congrArg (·.waiters) hcore
  have hrunning : w'.running = w.running.filter fun x => x.token ≠ a.call :=
    congrArg (·.running) hcore
  have htokens : ∀ t, t ≠ a.call → w'.isCancelled t = w.isCancelled t := by
    intro t ht
    rw [isCancelled, isCancelled, stopped, List.contains_eq_mem, List.contains_eq_mem,
      decide_eq_decide.2 (cancelled t ht)]
  have hcall : ∀ b ∈ w.tickets, b ≠ a → a.call ≠ b.call := fun b hmem hne he =>
    hne (hb.eq_of_call hmem ha he.symm)
  refine ⟨?gone, fun b hmem hne => ⟨?entry, ?ticket, ?execution, ?token⟩, ?waiters, ?committed,
    congrArg Worker.freeSlots hcore, htokens, stopped⟩
  case gone =>
    rw [tickets, hbooks]
    exact fun h => (hb.close_not_mem ha h).2 rfl
  case entry =>
    have hid : a.id ≠ b.id := fun he => hne (hb.eq_of_id hmem ha he.symm)
    rw [show w'.registry = (w.books.close a).registry from congrArg Books.registry hbooks,
      hb.close_entryOf ha, if_neg hid]
    rfl
  case ticket =>
    rw [tickets, hbooks]
    exact (List.mem_cons.1 ((hb.close_tickets ha).mem_iff.1 hmem)).resolve_left hne
  case execution =>
    rw [execution?, hrunning]
    exact find?_key_filter (hcall b hmem hne)
  case token => exact htokens b.call (hcall b hmem hne).symm
  case waiters =>
    intro b hmem hne
    rw [waiter?, hwaiters]
    exact find?_key_filter (hcall b hmem hne)
  case committed =>
    intro kind
    rw [show w'.ledger = (w.books.close a).ledger from congrArg Books.ledger hbooks]
    exact hb.close_committed ha kind

theorem handOut_fst (w : Worker) : ∃ freeSlots waiters, w.handOut = { w with freeSlots, waiters } ∧
    waiters.map Waiter.ticket = w.waiters.map Waiter.ticket := by
  have hmap := map_ticket_grantFirst w.waiters
  rw [handOut]
  split
  · exact ⟨_, _, rfl, rfl⟩
  · split
    · rename_i hgrant
      exact ⟨_, _, rfl, by rwa [hgrant] at hmap⟩
    · exact ⟨_, _, rfl, rfl⟩

theorem handOut_tickets (w : Worker) : w.handOut.tickets = w.tickets := by
  obtain ⟨freeSlots, waiters, hhand, hmap⟩ := w.handOut_fst
  rw [hhand, tickets, tickets, books, books, hmap]

theorem handOut_spares {w' : Worker} {b : Ticket} (h : w.Spares w' b) : w.Spares w'.handOut b := by
  have hticket := w'.handOut_tickets.symm ▸ h.ticket
  obtain ⟨freeSlots, waiters, hhand, -⟩ := w'.handOut_fst
  rw [hhand] at hticket ⊢
  exact ⟨h.entry, hticket, h.execution, h.token⟩

theorem returnSlot_handOut (w : Worker) :
    w.returnSlot.1 = { w with freeSlots := w.freeSlots + 1 }.handOut := by
  rw [returnSlot, handOut]
  cases w.slotsClosed with
  | true => rfl
  | false => rcases grantFirst w.waiters with ⟨waiters, _ | call⟩ <;> rfl

theorem handOut_last {f : Worker → Worker} (w : Worker)
    (slots : ∀ freeSlots waiters, f { w with freeSlots, waiters } =
      { f w with freeSlots, waiters })
    (closed : (f w).slotsClosed = w.slotsClosed) : f w.handOut = (f w).handOut := by
  have hsame : f w = { f w with freeSlots := w.freeSlots, waiters := w.waiters } :=
    slots w.freeSlots w.waiters
  have hfree : (f w).freeSlots = w.freeSlots := congrArg (·.freeSlots) hsame
  have hwaiters : (f w).waiters = w.waiters := congrArg (·.waiters) hsame
  rw [handOut, handOut]
  by_cases hclosed : w.slotsClosed = true
  · rw [if_pos hclosed, if_pos (closed.trans hclosed)]
  · rw [if_neg hclosed, if_neg (closed ▸ hclosed), hwaiters, hfree]
    rcases grantFirst w.waiters with ⟨waiters, _ | call⟩
    · rfl
    · exact slots (w.freeSlots - 1) waiters

theorem endTicket_handOut (w : Worker) (r : TaskRequest) :
    (w.endTicket r true).1 = (w.settled r (w.freeSlots + 1) w.waiters).handOut := by
  simp only [endTicket, Change.next_fst, if_true, returnSlot_handOut]
  refine (handOut_last (f := fun w => w.noteIdle.1) _ (fun freeSlots waiters => ?_) ?_).trans ?_
  · simp only [noteIdle_fst]
  · simp only [noteIdle_fst]
  · simp only [noteIdle_fst]
    rfl

theorem finish_handOut (w : Worker) (x : Execution) (o : Outcome) (elapsed : Duration) :
    (w.finish x o elapsed).1 = (((w.ended x.token o).settled x.request (w.freeSlots + 1)
      w.waiters).delivering x.token).handOut := by
  simp only [finish, Change.next_fst, endTicket_handOut]
  exact handOut_last (f := fun w => w.delivering x.token) _ (fun _ _ => rfl) rfl

theorem leave_handOut (w : Worker) (v : Waiter) (r : TaskRequest) (f : Totals → Totals)
    {w' : Worker} (h : w' = (w.settled r (w.freeSlots + if v.granted then 1 else 0)
      (w.unqueued v.call).waiters).withTotals f) :
    ((w.leaveQueue v).next fun w => w.endTicket r false).1.withTotals f =
      if v.granted then w'.handOut else w' := by
  have hend : ∀ w : Worker, (w.endTicket r false).1 = w.settled r w.freeSlots w.waiters := by
    intro w
    simp only [endTicket, Change.next_fst, noteIdle_fst]
    rfl
  rw [h, Change.next_fst, hend, leaveQueue]
  cases v.granted with
  | true =>
    rw [if_pos rfl, if_pos rfl, if_pos rfl, returnSlot_handOut]
    exact handOut_last (f := fun w => (w.settled r w.freeSlots w.waiters).withTotals f) _
      (fun _ _ => rfl) rfl
  | false => rfl

theorem waiter?_of_mem (hb : w.books.Sound) {v : Waiter} (mem : v ∈ w.waiters) :
    w.waiter? v.call = some v :=
  find?_key_mem (distinct_of_sound hb).waiters_nodup mem

theorem call_ne_token (hb : w.books.Sound) {v : Waiter} (hv : v ∈ w.waiters) {x : Execution}
    (hx : x ∈ w.running) : v.call ≠ x.token :=
  (roll_distinct hb).disjoint v.ticket (List.mem_map_of_mem hv) x hx

theorem holdsSlot_of_running (hb : w.books.Sound) {x : Execution} (mem : x ∈ w.running) :
    w.holdsSlot x.token = true := by
  rw [holdsSlot, execution?_of_mem hb mem]
  rfl

theorem holdsSlot_of_waiting (hb : w.books.Sound) {v : Waiter} (mem : v ∈ w.waiters) :
    w.holdsSlot v.call = v.granted := by
  have hnone : w.execution? v.call = none :=
    find?_key_none fun x hx => (call_ne_token hb mem hx).symm
  rw [holdsSlot, hnone, waiter?_of_mem hb mem]
  rfl

theorem vacated_of_running (hb : w.books.Sound) {x : Execution} (mem : x ∈ w.running) :
    w.vacated x.ticket = { w with
      ledger := (w.ledger.release x.request.required).1
      registry := (w.registry.remove x.request.taskId).1
      freeSlots := w.freeSlots + 1
      running := w.running.filter fun y => y.token ≠ x.token } := by
  have hwaiters : (w.waiters.filter fun v => v.call ≠ x.ticket.call) = w.waiters :=
    List.filter_eq_self.2 fun v hv => decide_eq_true (call_ne_token hb hv mem)
  rw [vacated, hwaiters, show w.holdsSlot x.ticket.call = true from holdsSlot_of_running hb mem]
  rfl

theorem vacated_of_waiting (hb : w.books.Sound) {v : Waiter} (mem : v ∈ w.waiters) :
    w.vacated v.ticket = { w with
      ledger := (w.ledger.release v.request.required).1
      registry := (w.registry.remove v.request.taskId).1
      freeSlots := w.freeSlots + if v.granted then 1 else 0
      waiters := w.waiters.filter fun u => u.call ≠ v.call } := by
  have hrunning : (w.running.filter fun x => x.token ≠ v.ticket.call) = w.running :=
    List.filter_eq_self.2 fun x hx => decide_eq_true (call_ne_token hb mem hx).symm
  rw [vacated, hrunning, show w.holdsSlot v.ticket.call = v.granted from
    holdsSlot_of_waiting hb mem]
  rfl

theorem finish_leaves (hb : w.books.Sound) {x : Execution} (mem : x ∈ w.running) (c : Bool)
    (o : Outcome) (elapsed : Duration) : ∃ w',
    ((w.cancelledIf c x.token).finish x o elapsed).1 = w'.handOut ∧ w.Leaves w' x.ticket ∧
      w'.cancelled = (w.cancelledIf c x.token).cancelled := by
  refine ⟨_, finish_handOut _ x o elapsed, vacated_leaves hb ?_ ?_ ?_ fun t ht => ?_, rfl⟩
  · exact Books.Sound.running_mem (List.mem_map_of_mem mem)
  · rw [vacated_of_running hb mem]
    cases c <;> rfl
  · cases c <;> rfl
  · refine ⟨fun h => (cancelledIf_cancelled h).resolve_right ht, fun h => ?_⟩
    cases c with
    | true => exact List.mem_cons_of_mem _ h
    | false => exact h

theorem leave_leaves (hb : w.books.Sound) {v : Waiter} (mem : v ∈ w.waiters)
    (f : Totals → Totals) : ∃ w',
    ((w.leaveQueue v).next fun w => w.endTicket v.request false).1.withTotals f =
      (if w.holdsSlot v.call then w'.handOut else w') ∧ w.Leaves w' v.ticket := by
  rw [holdsSlot_of_waiting hb mem]
  refine ⟨_, w.leave_handOut v v.request f rfl, vacated_leaves hb ?_ ?_ rfl fun _ _ => Iff.rfl⟩
  · exact Books.Sound.waiting_mem (List.mem_map_of_mem mem)
  · rw [vacated_of_waiting hb mem]
    rfl

theorem step_leaves (hb : w.books.Sound) {a : Ticket} {o : Option Outcome} {e : Event}
    (ends : w.Ends a o e) : ∃ w',
    (w.step e).1 = (if w.holdsSlot a.call then w'.handOut else w') ∧ w.Leaves w' a ∧
      ∀ limit, o = some (.failed (.timeout limit)) → w'.isCancelled a.call = true := by
  cases ends with
  | @finish x body expired o elapsed mem decided =>
    obtain ⟨w', hfinish, hleaves, hcancelled⟩ := finish_leaves hb mem
      (w.cancels (w.moment x.token body expired)) o elapsed
    refine ⟨w', ?_, hleaves, ?_⟩
    · rw [show w.holdsSlot x.ticket.call = true from holdsSlot_of_running hb mem, if_pos rfl,
        ← hfinish, step, turn, execution?_of_mem hb mem]
      simp only [decided, Change.next_fst]
    · -- a body that is out of time was not cancelled before, so its token is cancelled now
      rintro limit ⟨⟩
      obtain ⟨hlives, hafter⟩ := Moment.cancelledAfter_of_timeout decided
      have hcancels : w.cancels (w.moment x.token body expired) = true := by
        rw [cancels, hlives, hafter]
        rfl
      rw [isCancelled, hcancelled, hcancels]
      simp [cancelledIf, Execution.ticket]
  | @abandon v mem =>
    obtain ⟨w', hleave, hleaves⟩ := leave_leaves hb mem fun t => t
    refine ⟨w', ?_, hleaves, by rintro limit ⟨⟩⟩
    rw [show v.ticket.call = v.call from rfl, ← hleave, step, Worker.abandon,
      waiter?_of_mem hb mem]
    rfl
  | @closeOut v now mem closed =>
    obtain ⟨w', hleave, hleaves⟩ := leave_leaves hb mem
      fun t => { t with rejected := t.rejected + 1 }
    refine ⟨w', ?_, hleaves, by rintro limit ⟨⟩⟩
    rw [show v.ticket.call = v.call from rfl, ← hleave, step, Worker.resume,
      waiter?_of_mem hb mem]
    simp only [closed, if_true]
    rfl

theorem step_spares (hb : w.books.Sound) {a : Ticket} {o : Option Outcome} {e : Event}
    (ends : w.Ends a o e) {b : Ticket} (mem : b ∈ w.tickets) (hne : b ≠ a) :
    w.Spares (w.step e).1 b := by
  obtain ⟨w', hstep, hleaves, -⟩ := step_leaves hb ends
  have hspares := hleaves.spares b mem hne
  rw [hstep]
  split
  · exact handOut_spares hspares
  · exact hspares

theorem step_gone (hb : w.books.Sound) {a : Ticket} {o : Option Outcome} {e : Event}
    (ends : w.Ends a o e) : a ∉ (w.step e).1.tickets := by
  obtain ⟨w', hstep, hleaves, -⟩ := step_leaves hb ends
  rw [hstep]
  split
  · rw [handOut_tickets]
    exact hleaves.gone
  · exact hleaves.gone

theorem ends_of_gone (hb : w.books.Sound) (hs : w.Switched) {a : Ticket} {e : Event}
    (mem : a ∈ w.tickets) (gone : a ∉ (w.step e).1.tickets) : ∃ o, w.Ends a o e := by
  -- whose ticket it is that an ending takes, all others are spared
  have hends : ∀ {b : Ticket} {o : Option Outcome}, w.Ends b o e → ∃ o, w.Ends a o e := by
    intro b o ends
    by_cases he : a = b
    · exact ⟨o, he ▸ ends⟩
    · exact absurd (step_spares hb ends mem he).ticket gone
  have hstays : ∀ {b : Books} {c : Change}, bookView.of c = (b, []) → a ∈ b.tickets →
      a ∈ c.1.tickets := by
    intro b c hc hmem
    have hbooks : c.1.books = b := congrArg Prod.fst hc
    rw [tickets, hbooks]
    exact hmem
  have heffect := w.step_effect e
  generalize w.step e = change at heffect gone
  cases heffect with
  | idle | respond | refuse => exact absurd mem gone
  | @queue _ r now ledger asked decided isOpen full =>
    rw [tickets, queued_books] at gone
    exact absurd (Books.Sound.reserve_mem mem r ledger) gone
  | @launch _ r now ledger asked decided isOpen free =>
    rw [tickets, launched_books] at gone
    rcases List.mem_append.1 mem with hwaits | hruns
    · exact absurd (List.mem_append_left _ hwaits) gone
    · exact absurd (List.mem_append_right _ (List.mem_append_left _ hruns)) gone
  | turnAway asked decided closed =>
    exact absurd closed (by simp [(hs.serving_of_decided decided).isOpen])
  | @resume call now v found isOpen granted accepts =>
    obtain ⟨hv, rfl⟩ := waiter?_mem found
    rw [tickets, resume_books, (hb.promote_tickets hv now).mem_iff] at gone
    exact absurd mem gone
  | overtake found isOpen granted refuses =>
    exact absurd refuses (by simp [(hs.serving_of_open isOpen).accepts])
  | @closeOut call now v found closed =>
    obtain ⟨-, rfl⟩ := waiter?_mem found
    exact hends (.closeOut now (List.mem_of_find?_eq_some found) closed)
  | @abandon call v found =>
    obtain ⟨-, rfl⟩ := waiter?_mem found
    exact hends (.abandon (List.mem_of_find?_eq_some found))
  | @carryOn t body expired x elapsed found undecided =>
    rw [tickets, carriedOn_books, cancelledIf_books] at gone
    exact absurd mem gone
  | @finish t body expired x o elapsed found decided =>
    obtain ⟨-, rfl⟩ := execution?_mem found
    exact hends (.finish elapsed (List.mem_of_find?_eq_some found) decided)
  | reportEnded t delivered =>
    exact absurd (hstays (bookView.aside (w.reportEnded_aside t delivered)) mem) gone
  | shutdown => exact absurd (hstays w.shutdown_books mem) gone
  | resumeDrain call =>
    exact absurd (hstays (bookView.aside (w.resumeDrain_aside call)) mem) gone
  | drop => exact absurd (hstays (bookView.drop_eq stop_books w) mem) gone

variable {meter : Meter} {config : Config}

/-- After every run, whatever way a task ends in: it goes, takes along exactly its units and its slot,
and leaves all other tasks with what they had. If it held a slot, the step hands it out in the end,
and even who gets it has everything else as before. Of the tokens, its own alone may have been
cancelled, as it is if its time was up, and nothing is shut down. No task goes in another way. -/
theorem run_leaves (h : start meter config = .ok w) (events : List Event) (a : Ticket) (e : Event) :
    (∀ o, (w.run events).1.Ends a o e →
      (∃ w', ((w.run events).1.step e).1 =
          (if (w.run events).1.holdsSlot a.call then w'.handOut else w') ∧
        (w.run events).1.Leaves w' a ∧
        ∀ limit, o = some (.failed (.timeout limit)) → w'.isCancelled a.call = true) ∧
      a ∉ ((w.run events).1.step e).1.tickets ∧
      ∀ b ∈ (w.run events).1.tickets, b ≠ a →
        (w.run events).1.Spares ((w.run events).1.step e).1 b) ∧
    (a ∈ (w.run events).1.tickets → a ∉ ((w.run events).1.step e).1.tickets →
      ∃ o, (w.run events).1.Ends a o e) := by
  have hb := (run_sound (start_sound h) events).1
  have hs := run_switched (start_switched h) events
  refine ⟨fun o ends => ?_, ends_of_gone hb hs⟩
  exact ⟨step_leaves hb ends, step_gone hb ends, fun _ => step_spares hb ends⟩

theorem run_leaves_timeout : ∃ config, config =
      { Config.standard "w" with maxConcurrentTasks := 1 } ∧
    ∃ w, start .millionths config = .ok w ∧ ∃ a b c,
      a = { TaskRequest.new "a" .null with required := Table.ofList [(Profile.cpu, 1)] } ∧
      b = { TaskRequest.new "b" .null with required := Table.ofList [(Profile.cpu, 1)] } ∧
      c = w.run [.submit a 0, .submit b 0] ∧
      (∃ w', (c.1.step (.turn 0 .idle true .zero)).1 = w'.handOut ∧ c.1.Leaves w' ⟨0, a⟩ ∧
        w'.isCancelled 0 = true) ∧
      (⟨0, a⟩ : Ticket) ∉ (c.1.step (.turn 0 .idle true .zero)).1.tickets ∧
      c.1.Spares (c.1.step (.turn 0 .idle true .zero)).1 ⟨1, b⟩ ∧
      ∃ o, c.1.Ends ⟨0, a⟩ o (.turn 0 .idle true .zero) := by
  refine ⟨_, rfl, _, rfl, _, _, _, rfl, rfl, rfl, ?_⟩
  obtain ⟨hends, hothers⟩ := run_leaves (show start .millionths
    { Config.standard "w" with maxConcurrentTasks := 1 } = .ok _ from rfl)
    [.submit { TaskRequest.new "a" .null with required := Table.ofList [(Profile.cpu, 1)] } 0,
      .submit { TaskRequest.new "b" .null with required := Table.ofList [(Profile.cpu, 1)] } 0]
    ⟨0, { TaskRequest.new "a" .null with required := Table.ofList [(Profile.cpu, 1)] }⟩
    (.turn 0 .idle true .zero)
  obtain ⟨⟨w', hstep, hleaves, htimeout⟩, hgone, hspares⟩ := hends _
    (.finish (x := ⟨0, { TaskRequest.new "a" .null with
      required := Table.ofList [(Profile.cpu, 1)] }, false⟩) (o := .failed (.timeout _)) .zero
      (List.mem_singleton_self _) rfl)
  exact ⟨⟨w', hstep, hleaves, htimeout _ rfl⟩, hgone, hspares ⟨1, _⟩ List.mem_cons_self nofun,
    hothers (List.mem_cons_of_mem _ List.mem_cons_self) hgone⟩

end Worker

end BoundedWorker
