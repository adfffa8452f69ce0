import BoundedWorker.Proofs.Books
import BoundedWorker.Proofs.Step

/-!
Exact accounting. A worker keeps books: each of its steps is one of the ways of keeping them, and so
in every state that a run reaches, registry and ledger say what the submissions that wait and the
executions that run say.
-/

namespace BoundedWorker

def Waiter.ticket (v : Waiter) : Ticket := ⟨v.call, v.request⟩

def Execution.ticket (x : Execution) : Ticket := ⟨x.token, x.request⟩

def Notice.alarm? : Notice → Option LedgerAlarm
  | .alarm a => some a
  | _ => none

namespace Worker

def books (w : Worker) : Books :=
  ⟨w.calls, w.ledger, w.registry, w.waiters.map Waiter.ticket, w.running.map Execution.ticket⟩

def tickets (w : Worker) : List Ticket := w.books.tickets

end Worker

def bookView : View Books LedgerAlarm where
  see := Worker.books
  hear := Notice.alarm?
  see_core _ := rfl
  hear_aside n h := by
    cases n with
    | returned | nudged => rfl
    | _ => cases h

namespace Worker

open Ticket (without)

variable (w : Worker)

theorem map_ticket_grantFirst (vs : List Waiter) :
    (grantFirst vs).1.map Waiter.ticket = vs.map Waiter.ticket := by
  induction vs with
  | nil => rfl
  | cons v rest ih =>
    cases h : v.granted with
    | true => simp [grantFirst, h, ih]
    | false => simp [grantFirst, h, Waiter.ticket]

theorem map_ticket_filter (vs : List Waiter) (call : Token) :
    (vs.filter fun v => v.call ≠ call).map Waiter.ticket = without call (vs.map Waiter.ticket) := by
  rw [without, List.filter_map]
  rfl

theorem returnSlot_books : bookView.of w.returnSlot = (w.books, []) := by
  have hmap := map_ticket_grantFirst w.waiters
  rw [returnSlot]
  split
  · rfl
  · split
    · rename_i hgrant
      rw [hgrant] at hmap
      simp only [View.of, bookView, books, hmap]
      rfl
    · rfl

theorem releaseResources_books (r : TaskRequest) :
    bookView.of (w.releaseResources r) = (w.books.release r, (w.ledger.release r.required).2) := by
  have halarms : ∀ as : List LedgerAlarm, (as.map Notice.alarm).filterMap Notice.alarm? = as := by
    intro as
    simp [List.filterMap_map, Function.comp_def, Notice.alarm?]
  exact congrArg (Prod.mk _) (halarms _)

theorem endTicket_books (r : TaskRequest) (slot : Bool) :
    bookView.of (w.endTicket r slot) = (w.books.release r, (w.ledger.release r.required).2) := by
  rw [bookView.endTicket_eq returnSlot_books, releaseResources_books]

theorem next_reject_books (c : Change) (call : Token) (refusal : Refusal) :
    bookView.of (c.next (reject call refusal)) = bookView.of c :=
  bookView.next_eq fun _ => rfl

theorem unqueued_books (call : Token) :
    (w.unqueued call).books = { w.books with waiting := without call w.books.waiting } := by
  simp only [books, unqueued, map_ticket_filter]

theorem leaveQueue_books (v : Waiter) : bookView.of (w.leaveQueue v) =
    ({ w.books with waiting := without v.call w.books.waiting }, []) := by
  rw [leaveQueue, ← unqueued_books]
  split
  · exact returnSlot_books _
  · rfl

theorem queued_books (r : TaskRequest) (ledger : Ledger) :
    ((w.opened.reserved r ledger).queued w.calls r).books = w.books.reserve r ledger := by
  simp [books, opened, numbered, withTotals, reserved, queued, Books.reserve, Books.number,
    Waiter.ticket]

theorem launched_books (call : Token) (r : TaskRequest) (now : Nat) :
    (w.launched call r now).books = { w.books with
      registry := w.registry.promote r.taskId (Ticket.handle ⟨call, r⟩ now)
      running := w.books.running ++ [⟨call, r⟩] } := by
  simp [books, launched, withTotals, Ticket.handle, Execution.ticket]

theorem resume_books (v : Waiter) (now : Nat) :
    ((w.unqueued v.call).launched v.call v.request now).books = w.books.promote v.ticket now := by
  rw [launched_books, unqueued_books]
  rfl

theorem beginning_alarms (x : Execution) (v : Verdict) :
    (beginning x v).filterMap bookView.hear = [] := by
  rw [beginning]
  split <;> rfl

theorem cancelledIf_books (c : Bool) (t : Token) : (w.cancelledIf c t).books = w.books := by
  cases c <;> rfl

theorem carriedOn_books (t : Token) : (w.carriedOn t).books = w.books := by
  have hticket : ∀ u : Execution,
      (if u.token = t then { u with started := true } else u).ticket = u.ticket := by
    intro u
    split <;> rfl
  simp [books, carriedOn, List.map_map, Function.comp_def, hticket]

theorem ended_books (t : Token) (o : Outcome) :
    (w.ended t o).books = { w.books with running := without t w.books.running } := by
  simp only [books, ended, withTotals, without, List.filter_map]
  rfl

theorem stop_books : bookView.of w.stop = (w.books, []) := by
  refine congrArg (Prod.mk w.books) ?_
  rw [stop]
  split <;> split <;>
    simp [bookView, List.filterMap_map, Function.comp_def, Notice.alarm?]

theorem shutdown_books : bookView.of w.shutdown = (w.books.number, []) := by
  rw [bookView.shutdown_eq, stop_books]
  rfl

variable {w : Worker}

theorem waiter?_mem {call : Token} {v : Waiter} (found : w.waiter? call = some v) :
    v.ticket ∈ w.books.waiting ∧ v.call = call :=
  ⟨List.mem_map_of_mem (List.mem_of_find?_eq_some found), by simpa using List.find?_some found⟩

theorem execution?_mem {t : Token} {x : Execution} (found : w.execution? t = some x) :
    x.ticket ∈ w.books.running ∧ x.token = t :=
  ⟨List.mem_map_of_mem (List.mem_of_find?_eq_some found), by simpa using List.find?_some found⟩

theorem leave_books (hb : w.books.Sound) {v : Waiter} (mem : v.ticket ∈ w.books.waiting) :
    bookView.of ((w.leaveQueue v).next fun w => w.endTicket v.request false) =
      (w.books.close v.ticket, (w.ledger.release v.request.required).2) := by
  have hleave := w.leaveQueue_books v
  have hbooks : (w.leaveQueue v).1.books = _ := congrArg Prod.fst hleave
  have hledger : (w.leaveQueue v).1.ledger = w.ledger := congrArg Books.ledger hbooks
  rw [View.next, endTicket_books, hleave, hbooks, hledger, hb.close_waiting mem]
  rfl

theorem finish_books (hb : w.books.Sound) {x : Execution} (mem : x.ticket ∈ w.books.running)
    (o : Outcome) (elapsed : Duration) : bookView.of (w.finish x o elapsed) =
      (w.books.close x.ticket, (w.ledger.release x.request.required).2) := by
  rw [finish, View.next_eq _ fun _ => rfl, endTicket_books, ended_books, hb.close_running mem]
  rfl

theorem step_booking (hb : w.books.Sound) (e : Event) :
    w.books.Booking (bookView.of (w.step e)) := by
  have heffect := w.step_effect e
  generalize w.step e = change at heffect ⊢
  cases heffect with
  | idle => exact .idle
  | respond => exact .number
  | refuse => exact .number
  | @queue _ r now ledger asked decided isOpen full =>
    obtain ⟨-, fresh, fits⟩ := decide_eq_ok decided
    change w.books.Booking (books _, [])
    rw [queued_books]
    exact .reserve r fresh fits
  | @launch _ r now ledger asked decided isOpen free =>
    obtain ⟨-, fresh, fits⟩ := decide_eq_ok decided
    have hbooks : ((w.opened.reserved r ledger).slotTaken.launched w.calls r now).books =
        (w.books.reserve r ledger).promote ⟨w.calls, r⟩ now :=
      (launched_books _ _ _ _).trans (hb.reserve_promote r ledger now).symm
    change w.books.Booking (books _, [])
    rw [hbooks]
    exact .start r now fresh fits
  | @turnAway _ r now ledger asked decided closed =>
    obtain ⟨-, fresh, fits⟩ := decide_eq_ok decided
    have hbooks : (w.opened.reserved r ledger).books.release r =
        (w.books.reserve r ledger).close ⟨w.calls, r⟩ := (hb.reserve_close r ledger).symm
    rw [next_reject_books, endTicket_books, hbooks]
    exact .turnAway r fresh fits
  | @resume call now v found isOpen granted accepts =>
    obtain ⟨mem, rfl⟩ := waiter?_mem found
    change w.books.Booking (books _, [])
    rw [resume_books]
    exact .promote mem now
  | @overtake call now v found isOpen granted refuses =>
    obtain ⟨mem, rfl⟩ := waiter?_mem found
    have hbooks : (w.unqueued v.call).books.release v.request = w.books.close v.ticket := by
      rw [hb.close_waiting mem, unqueued_books]
      rfl
    rw [next_reject_books, endTicket_books, hbooks]
    exact .close (Books.Sound.waiting_mem mem)
  | @closeOut call now v found closed =>
    obtain ⟨mem, rfl⟩ := waiter?_mem found
    rw [next_reject_books, leave_books hb mem]
    exact .close (Books.Sound.waiting_mem mem)
  | @abandon call v found =>
    obtain ⟨mem, rfl⟩ := waiter?_mem found
    rw [View.next_eq _ fun _ => rfl, leave_books hb mem]
    exact .close (Books.Sound.waiting_mem mem)
  | @carryOn t body expired x elapsed found undecided =>
    have hroused : (if w.cancels (w.moment t body expired) then [Notice.roused t] else []).filterMap
        bookView.hear = [] := by
      split <;> rfl
    change w.books.Booking (books _, List.filterMap _ _)
    rw [carriedOn_books, cancelledIf_books, List.filterMap_append, beginning_alarms, hroused]
    exact .idle
  | @finish t body expired x o elapsed found decided =>
    obtain ⟨mem, rfl⟩ := execution?_mem found
    have hbooks := w.cancelledIf_books (w.cancels (w.moment x.token body expired)) x.token
    have hledger : (w.cancelledIf _ _).ledger = w.ledger := congrArg Books.ledger hbooks
    rw [View.next, finish_books (hbooks ▸ hb) (hbooks ▸ mem), hbooks, hledger]
    change w.books.Booking (_, List.filterMap _ (beginning x _) ++ _)
    rw [beginning_alarms]
    exact .close (Books.Sound.running_mem mem)
  | reportEnded t delivered =>
    rw [bookView.aside (w.reportEnded_aside t delivered)]
    exact .idle
  | shutdown =>
    rw [shutdown_books]
    exact .number
  | resumeDrain call =>
    rw [bookView.aside (w.resumeDrain_aside call)]
    exact .idle
  | drop =>
    rw [bookView.drop_eq stop_books]
    exact .idle

theorem start_books {meter : Meter} {config : Config} (h : start meter config = .ok w) :
    w.books = ⟨0, .new meter config.limits, .empty, [], []⟩ := by
  rw [start_eq h]
  rfl

theorem start_sound {meter : Meter} {config : Config} (h : start meter config = .ok w) :
    w.books.Sound := by
  rw [start_books h]
  refine ⟨?_, List.nodup_nil, List.nodup_nil, rfl, ?_, ?_, ?_⟩ <;>
    simp [Books.tickets, Registry.empty, Ledger.new, Ledger.committed]

theorem run_sound (hb : w.books.Sound) (events : List Event) :
    (w.run events).1.books.Sound ∧ (bookView.of (w.run events)).2 = [] := by
  refine run_induction (P := fun _ c => c.1.books.Sound ∧ (bookView.of c).2 = []) ⟨hb, rfl⟩
    (fun earlier e ih => ?_) events
  have hstep := step_booking ih.1 e
  refine ⟨hstep.sound ih.1, ?_⟩
  rw [View.next, ih.2, List.nil_append]
  exact hstep.alarms_eq_nil ih.1

theorem run_ledger (hb : w.books.Sound) (events : List Event) :
    ∃ ops, (w.run events).1.ledger = w.ledger.run ops := by
  refine run_induction (P := fun _ c => ∃ ops, c.1.ledger = w.ledger.run ops) ⟨[], rfl⟩
    (fun earlier e ih => ?_) events
  obtain ⟨ops, hops⟩ := ih
  obtain ⟨more, hmore⟩ := (step_booking (run_sound hb earlier).1 e).exists_ops
  refine ⟨ops ++ more, ?_⟩
  rw [Ledger.run_append, ← hops]
  exact hmore

/-- Registry and ledger say of the tickets that are out what there is to say. -/
structure Accounted (w : Worker) (meter : Meter) : Prop where
  ids_nodup : (w.tickets.map Ticket.id).Nodup
  ids_perm : (w.registry.waiting ++ w.registry.runningIds).Perm (w.tickets.map Ticket.id)
  waiting_entry : ∀ v ∈ w.waiters, w.registry.entryOf v.request.taskId = some .waiting
  running_entry : ∀ x ∈ w.running, ∃ since,
    w.registry.entryOf x.request.taskId = some (.running (x.ticket.handle since))
  committed : ∀ kind, w.ledger.committed kind = (w.tickets.map (Ticket.units meter kind)).sum

theorem accounted_of_sound (hb : w.books.Sound) : w.Accounted w.ledger.meter :=
  ⟨hb.ids_nodup, hb.ids_perm, fun _ hv => hb.entryOf_of_waiting (List.mem_map_of_mem hv),
    fun _ hx => hb.entryOf_of_running (List.mem_map_of_mem hx), hb.committed⟩

/-- In every state between the steps of a run, the tickets that are out, the registry and the ledger
agree. No release raises an alarm, and a ticket that is given back takes its own entry out of the
registry and no other. -/
theorem run_accounted {meter : Meter} {config : Config} (h : start meter config = .ok w)
    (events : List Event) :
    (w.run events).1.Accounted meter ∧ (∀ a, .alarm a ∉ (w.run events).2) ∧
      ∀ e, ∀ t ∈ (w.run events).1.tickets,
        (∀ u ∈ ((w.run events).1.step e).1.tickets, u.call ≠ t.call) →
          ∀ id, ((w.run events).1.step e).1.registry.entryOf id =
            if t.id = id then none else (w.run events).1.registry.entryOf id := by
  obtain ⟨hb, halarms⟩ := run_sound (start_sound h) events
  obtain ⟨ops, hops⟩ := run_ledger (start_sound h) events
  have hmeter : (w.run events).1.ledger.meter = meter := by
    rw [hops, Ledger.run_meter, show w.ledger = .new meter config.limits from
      congrArg Books.ledger (start_books h)]
    rfl
  refine ⟨hmeter ▸ accounted_of_sound hb, ?_, ?_⟩
  · intro a ha
    have hmem : a ∈ (bookView.of (w.run events)).2 := List.mem_filterMap.2 ⟨_, ha, rfl⟩
    simp [halarms] at hmem
  · intro e t ht gone id
    have hclose := (step_booking hb e).eq_close hb ht gone
    have hregistry : ((w.run events).1.step e).1.registry =
        ((w.run events).1.books.close t).registry := congrArg Books.registry hclose
    rw [hregistry]
    exact hb.close_entryOf ht id

theorem run_accounted_two : ∃ w, start .millionths (.standard "w") = .ok w ∧ ∃ c,
    c = (w.run [.submit (.new "a" .null) 0, .submit (.new "b" .null) 0]).1 ∧
      c.tickets = [⟨0, .new "a" .null⟩, ⟨1, .new "b" .null⟩] ∧ c.Accounted .millionths ∧
      ∀ id, (c.step (.turn 0 ⟨false, some (.completed .empty)⟩ false .zero)).1.registry.entryOf id =
        if "a" = id then none else c.registry.entryOf id := by
  refine ⟨_, rfl, _, rfl, rfl, ?_⟩
  obtain ⟨haccounted, -, hleave⟩ :=
    run_accounted (show start .millionths (.standard "w") = .ok _ from rfl)
      [.submit (.new "a" .null) 0, .submit (.new "b" .null) 0]
  refine ⟨haccounted, hleave (.turn 0 ⟨false, some (.completed .empty)⟩ false .zero)
    ⟨0, .new "a" .null⟩ List.mem_cons_self ?_⟩
  intro u hu
  obtain rfl : u = ⟨1, .new "b" .null⟩ := List.mem_singleton.1 hu
  decide

end Worker

end BoundedWorker
