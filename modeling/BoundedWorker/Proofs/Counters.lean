import BoundedWorker.Proofs.Shutdown

/-!
Counters. What happens to a submission moves one counter, and moves the submission from those that
wait to those that run, or out. A `Tally` says how often each counter has gone up, without a bound;
`Adds` ties it to the counters and to who waits, runs and reports. As long as there are fewer
submissions than a counter can hold, the counters are the tally.
-/

namespace BoundedWorker

/-- How often each counter goes up, and how many submissions are abandoned. -/
structure Tally where
  submitted : Nat
  admitted : Nat
  rejected : Nat
  completed : Nat
  failed : Nat
  timedOut : Nat
  cancelled : Nat
  reportFailures : Nat
  abandoned : Nat

namespace Tally

def zero : Tally := ⟨0, 0, 0, 0, 0, 0, 0, 0, 0⟩

def add (g h : Tally) : Tally :=
  ⟨g.submitted + h.submitted, g.admitted + h.admitted, g.rejected + h.rejected,
    g.completed + h.completed, g.failed + h.failed, g.timedOut + h.timedOut,
    g.cancelled + h.cancelled, g.reportFailures + h.reportFailures, g.abandoned + h.abandoned⟩

def ended (g : Tally) : Nat := g.completed + g.failed + g.timedOut + g.cancelled

theorem add_ended (g h : Tally) : (g.add h).ended = g.ended + h.ended := by
  simp only [ended, add]
  omega

def ofOutcome : Outcome → Tally
  | .completed _ => { zero with completed := 1 }
  | .failed (.timeout _) => { zero with timedOut := 1 }
  | .failed .cancelled => { zero with cancelled := 1 }
  | .failed (.execution _) => { zero with failed := 1 }

theorem ofOutcome_quiet (o : Outcome) :
    (ofOutcome o).submitted = 0 ∧ (ofOutcome o).admitted = 0 ∧ (ofOutcome o).rejected = 0 ∧
      (ofOutcome o).reportFailures = 0 ∧ (ofOutcome o).abandoned = 0 := by
  rcases o with _ | _ | _ | _ <;> exact ⟨rfl, rfl, rfl, rfl, rfl⟩

theorem ofOutcome_ended (o : Outcome) : (ofOutcome o).ended = 1 := by
  rcases o with _ | _ | _ | _ <;> rfl

end Tally

namespace Totals

def plus (t : Totals) (g : Tally) : Totals :=
  ⟨t.submitted + .ofNat g.submitted, t.admitted + .ofNat g.admitted,
    t.rejected + .ofNat g.rejected, t.completed + .ofNat g.completed, t.failed + .ofNat g.failed,
    t.timedOut + .ofNat g.timedOut, t.cancelled + .ofNat g.cancelled,
    t.reportFailures + .ofNat g.reportFailures⟩

theorem plus_zero (t : Totals) : t.plus .zero = t := by
  simp [plus, Tally.zero]

theorem plus_add (t : Totals) (g h : Tally) : t.plus (g.add h) = (t.plus g).plus h := by
  simp [plus, Tally.add, UInt64.ofNat_add, UInt64.add_assoc]

/-- As long as it does not overflow, a counter is how often it went up. -/
structure Shows (t : Totals) (g : Tally) : Prop where
  submitted : t.submitted.toNat = g.submitted
  admitted : t.admitted.toNat = g.admitted
  rejected : t.rejected.toNat = g.rejected
  completed : t.completed.toNat = g.completed
  failed : t.failed.toNat = g.failed
  timedOut : t.timedOut.toNat = g.timedOut
  cancelled : t.cancelled.toNat = g.cancelled
  reportFailures : t.reportFailures.toNat = g.reportFailures

def ended (t : Totals) : Nat :=
  t.completed.toNat + t.failed.toNat + t.timedOut.toNat + t.cancelled.toNat

structure Le (t u : Totals) : Prop where
  submitted : t.submitted ≤ u.submitted
  admitted : t.admitted ≤ u.admitted
  rejected : t.rejected ≤ u.rejected
  completed : t.completed ≤ u.completed
  failed : t.failed ≤ u.failed
  timedOut : t.timedOut ≤ u.timedOut
  cancelled : t.cancelled ≤ u.cancelled
  reportFailures : t.reportFailures ≤ u.reportFailures

theorem Shows.ended {t : Totals} {g : Tally} (h : t.Shows g) : t.ended = g.ended := by
  rw [Totals.ended, Tally.ended, h.completed, h.failed, h.timedOut, h.cancelled]

theorem Shows.le {t u : Totals} {g h : Tally} (ht : t.Shows g) (hu : u.Shows (g.add h)) :
    t.Le u := by
  constructor <;> rw [UInt64.le_iff_toNat_le]
  · exact ht.submitted ▸ hu.submitted ▸ Nat.le_add_right ..
  · exact ht.admitted ▸ hu.admitted ▸ Nat.le_add_right ..
  · exact ht.rejected ▸ hu.rejected ▸ Nat.le_add_right ..
  · exact ht.completed ▸ hu.completed ▸ Nat.le_add_right ..
  · exact ht.failed ▸ hu.failed ▸ Nat.le_add_right ..
  · exact ht.timedOut ▸ hu.timedOut ▸ Nat.le_add_right ..
  · exact ht.cancelled ▸ hu.cancelled ▸ Nat.le_add_right ..
  · exact ht.reportFailures ▸ hu.reportFailures ▸ Nat.le_add_right ..

theorem zero_plus_shows {g : Tally} (few : g.submitted < 2 ^ 64)
    (calls : g.admitted + g.rejected ≤ g.submitted) (executions : g.ended ≤ g.admitted)
    (reports : g.reportFailures ≤ g.ended) : (zero.plus g).Shows g := by
  -- nothing is counted more often than submissions, so no counter wraps around before that one
  have hread : ∀ n, n ≤ g.submitted → (0 + UInt64.ofNat n).toNat = n := by
    intro n hn
    rw [UInt64.zero_add, UInt64.toNat_ofNat_of_lt' (hn.trans_lt few)]
  rw [Tally.ended] at executions reports
  constructor <;> exact hread _ (by omega)

theorem countOutcome_eq (t : Totals) (o : Outcome) :
    t.countOutcome o = t.plus (.ofOutcome o) := by
  rcases o with _ | _ | _ | _ <;> simp [countOutcome, plus, Tally.ofOutcome, Tally.zero]

end Totals

namespace Roll

variable {r : Roll}

theorem without_length (hr : r.Distinct) {t : Ticket} (mem : t ∈ r.waiting) :
    (r.without t.call).waiting.length + 1 = r.waiting.length :=
  (perm_cons_filter hr.waiting_nodup mem).length_eq.symm

theorem ended_length (hr : r.Distinct) {x : Execution} (mem : x ∈ r.running) :
    (r.ended x.token).running.length + 1 = r.running.length :=
  (perm_cons_filter hr.running_nodup mem).length_eq.symm

end Roll

namespace Worker

def submits (w : Worker) (e : Event) : Bool := !w.dropped && e.request?.isSome

theorem submits_eq_false {w : Worker} {e : Event} (h : e.request? = none) :
    w.submits e = false := by
  simp [submits, h]

def givesUp (w : Worker) : Event → Bool
  | .abandon call => (w.waiter? call).isSome
  | _ => false

def failsReport (w : Worker) : Event → Bool
  | .reportEnded t delivered => w.reporting.contains t && !delivered
  | _ => false

def occurrences (counts : Worker → Event → Bool) (w : Worker) : List Event → Nat
  | [] => 0
  | e :: rest => (counts w e).toNat + occurrences counts (w.step e).1 rest

def submissions (w : Worker) (events : List Event) : Nat := occurrences submits w events

def abandonments (w : Worker) (events : List Event) : Nat := occurrences givesUp w events

def failedReports (w : Worker) (events : List Event) : Nat := occurrences failsReport w events

theorem occurrences_append (counts : Worker → Event → Bool) (w : Worker)
    (earlier later : List Event) : occurrences counts w (earlier ++ later) =
      occurrences counts w earlier + occurrences counts (w.run earlier).1 later := by
  induction earlier generalizing w with
  | nil => simp [occurrences, run]
  | cons e rest ih => simp only [List.cons_append, occurrences, run, Change.next_fst, ih,
      Nat.add_assoc]

/-- From `w` to `u` the counters go up as the tally says, and whoever is counted in comes to wait,
to run or to be reported, or is counted out. -/
structure Adds (w u : Worker) (g : Tally) : Prop where
  totals : u.totals = w.totals.plus g
  calls : u.waiters.length + g.admitted + g.rejected + g.abandoned =
    w.waiters.length + g.submitted
  executions : u.running.length + g.ended = w.running.length + g.admitted
  reports : u.reporting.length + g.reportFailures ≤ w.reporting.length + g.ended

variable {w u : Worker}

theorem Adds.trans {v : Worker} {g h : Tally} (first : w.Adds u g) (second : u.Adds v h) :
    w.Adds v (g.add h) := by
  obtain ⟨htotals, hcalls, hexecutions, hreports⟩ := first
  obtain ⟨htotals', hcalls', hexecutions', hreports'⟩ := second
  refine ⟨?_, ?_, ?_, ?_⟩
  · rw [htotals', htotals, Totals.plus_add]
  · simp only [Tally.add]
    omega
  · rw [Tally.add_ended]
    simp only [Tally.add]
    omega
  · rw [Tally.add_ended]
    simp only [Tally.add]
    omega

def Tallies (w u : Worker) (submitted abandoned reportFailures : Nat) : Prop :=
  ∃ g, w.Adds u g ∧ g.submitted = submitted ∧ g.abandoned = abandoned ∧
    g.reportFailures = reportFailures

theorem Tallies.trans {v : Worker} {s a f s' a' f' : Nat} (first : w.Tallies u s a f)
    (second : u.Tallies v s' a' f') : w.Tallies v (s + s') (a + a') (f + f') := by
  obtain ⟨g, hg, rfl, rfl, rfl⟩ := first
  obtain ⟨h, hh, rfl, rfl, rfl⟩ := second
  exact ⟨g.add h, hg.trans hh, rfl, rfl, rfl⟩

theorem waiters_length (w : Worker) : w.waiters.length = w.roll.waiting.length :=
  (List.length_map _).symm

theorem tallies_quiet (totals : u.totals = w.totals) (waiting : u.roll.waiting = w.roll.waiting)
    (running : u.running.length = w.running.length)
    (reporting : u.reporting.length ≤ w.reporting.length) : w.Tallies u 0 0 0 := by
  refine ⟨.zero, ⟨?_, ?_, ?_, ?_⟩, rfl, rfl, rfl⟩
  · rw [totals, Totals.plus_zero]
  · simp [Tally.zero, waiters_length, waiting]
  · simpa [Tally.zero, Tally.ended] using running
  · simpa [Tally.zero, Tally.ended] using reporting

theorem tallies_self (w : Worker) : w.Tallies w 0 0 0 := tallies_quiet rfl rfl rfl le_rfl

theorem tallies_refuse (waiting : u.roll.waiting = w.roll.waiting)
    (running : u.running = w.running) (reporting : u.reporting = w.reporting)
    (totals : u.totals = { w.totals with
      submitted := w.totals.submitted + 1
      rejected := w.totals.rejected + 1 }) : w.Tallies u 1 0 0 := by
  refine ⟨{ Tally.zero with submitted := 1, rejected := 1 }, ⟨?_, ?_, ?_, ?_⟩, rfl, rfl, rfl⟩
  · simp [totals, Totals.plus, Tally.zero]
  · simp [waiters_length, waiting, Tally.zero]
  · simp [running, Tally.zero, Tally.ended]
  · simp [reporting, Tally.zero, Tally.ended]

theorem tallies_leave (hb : w.books.Sound) {v : Waiter} (mem : v.ticket ∈ w.roll.waiting)
    (roll : u.roll = w.roll.without v.call) (reporting : u.reporting = w.reporting) {g : Tally}
    (out : g = { Tally.zero with rejected := 1 } ∨ g = { Tally.zero with abandoned := 1 })
    (totals : u.totals = w.totals.plus g) : w.Tallies u 0 g.abandoned 0 := by
  have hlength : u.waiters.length + 1 = w.waiters.length := by
    rw [waiters_length, waiters_length, roll]
    exact Roll.without_length (roll_distinct hb) mem
  have hrunning : u.running = w.running := congrArg Roll.running roll
  refine ⟨g, ⟨totals, ?_, ?_, ?_⟩, ?_, rfl, ?_⟩
  · rcases out with rfl | rfl <;> exact hlength
  · rcases out with rfl | rfl <;> simp [hrunning, Tally.zero, Tally.ended]
  · rcases out with rfl | rfl <;> simp [reporting, Tally.zero, Tally.ended]
  · rcases out with rfl | rfl <;> rfl
  · rcases out with rfl | rfl <;> rfl

theorem tallies_turnAway (hb : w.books.Sound) {v : Waiter} (mem : v.ticket ∈ w.roll.waiting)
    {c : Change} (roll : c.1.roll = w.roll.without v.call) (totals : c.1.totals = w.totals)
    (reporting : c.1.reporting = w.reporting) (call : Token) (refusal : Refusal) :
    w.Tallies (c.next (reject call refusal)).1 0 0 0 := by
  refine tallies_leave hb mem (u := (c.next (reject call refusal)).1) roll reporting (.inl rfl) ?_
  simp [reject, withTotals, totals, Totals.plus, Tally.zero]

theorem endTicket_totals (w : Worker) (r : TaskRequest) (slot : Bool) :
    (w.endTicket r slot).1.totals = w.totals ∧ (w.endTicket r slot).1.reporting = w.reporting := by
  obtain ⟨freeSlots, waiters, hend⟩ := w.endTicket_fst r slot
  rw [hend]
  exact ⟨rfl, rfl⟩

theorem leave_totals (w : Worker) (v : Waiter) (r : TaskRequest) :
    ((w.leaveQueue v).next fun w => w.endTicket r false).1.totals = w.totals ∧
      ((w.leaveQueue v).next fun w => w.endTicket r false).1.reporting = w.reporting := by
  obtain ⟨freeSlots, waiters, hleave⟩ := w.leave_fst v r
  rw [hleave]
  exact ⟨rfl, rfl⟩

theorem turnAway_tallies (w v : Worker) (waiting : v.roll.waiting = w.roll.waiting)
    (running : v.running = w.running) (reporting : v.reporting = w.reporting)
    (totals : v.totals = w.opened.totals) (r : TaskRequest) (slot : Bool) (call : Token)
    (refusal : Refusal) :
    w.Tallies ((v.endTicket r slot).next (reject call refusal)).1 1 0 0 := by
  obtain ⟨htotals, hreporting⟩ := v.endTicket_totals r slot
  have hroll : (v.endTicket r slot).1.roll = v.roll := congrArg Prod.fst (v.endTicket_roll r slot)
  refine tallies_refuse ?_ ?_ ?_ ?_
  · exact (congrArg Roll.waiting hroll).trans waiting
  · exact (congrArg Roll.running hroll).trans running
  · exact hreporting.trans reporting
  · rw [Change.next_fst, reject, withTotals, htotals, totals]
    rfl

theorem launch_tallies (w : Worker) (r : TaskRequest) (ledger : Ledger) (now : Nat) :
    w.Tallies ((w.opened.reserved r ledger).slotTaken.launched w.calls r now) 1 0 0 := by
  refine ⟨{ Tally.zero with submitted := 1, admitted := 1 }, ⟨?_, ?_, ?_, ?_⟩, rfl, rfl, rfl⟩
  · simp [launched, slotTaken, reserved, opened, numbered, withTotals, Totals.plus, Tally.zero]
  · simp [launched, slotTaken, reserved, opened, numbered, withTotals, Tally.zero]
  · simp [launched, slotTaken, reserved, opened, numbered, withTotals, Tally.zero, Tally.ended]
  · simp [launched, slotTaken, reserved, opened, numbered, withTotals, Tally.zero, Tally.ended]

theorem queue_tallies (w : Worker) (r : TaskRequest) (ledger : Ledger) :
    w.Tallies ((w.opened.reserved r ledger).queued w.calls r) 1 0 0 := by
  refine ⟨{ Tally.zero with submitted := 1 }, ⟨?_, ?_, ?_, ?_⟩, rfl, rfl, rfl⟩
  · simp [queued, reserved, opened, numbered, withTotals, Totals.plus, Tally.zero]
  · simp [queued, reserved, opened, numbered, withTotals, Tally.zero]
  · simp [queued, reserved, opened, numbered, withTotals, Tally.zero, Tally.ended]
  · simp [queued, reserved, opened, numbered, withTotals, Tally.zero, Tally.ended]

theorem submit_tallies (w : Worker) (r : TaskRequest) (now : Nat) :
    w.Tallies (w.submit r now).1 1 0 0 := by
  rw [submit]
  cases w.opened.decide r now with
  | error refusal => exact tallies_refuse rfl rfl rfl rfl
  | ok ledger =>
    dsimp only
    rw [acquire]
    split
    · exact turnAway_tallies w (w.opened.reserved r ledger) rfl rfl rfl rfl ..
    · split
      · rw [Worker.launch]
        split
        · exact turnAway_tallies w (w.opened.reserved r ledger).slotTaken rfl rfl rfl rfl ..
        · exact w.launch_tallies r ledger now
      · exact w.queue_tallies r ledger

theorem finish_tallies (hb : w.books.Sound) {x : Execution} (mem : x ∈ w.roll.running)
    (o : Outcome) (elapsed : Duration) : w.Tallies (w.finish x o elapsed).1 0 0 0 := by
  obtain ⟨hsubmitted, hadmitted, hrejected, hfailures, habandoned⟩ := Tally.ofOutcome_quiet o
  obtain ⟨freeSlots, waiters, hfinish⟩ := w.finish_fst x o elapsed
  have hroll := congrArg Prod.fst (w.finish_roll x o elapsed)
  have hlength := Roll.ended_length (roll_distinct hb) mem
  have hwaiters : (w.finish x o elapsed).1.waiters.length = w.waiters.length := by
    rw [waiters_length, waiters_length]
    exact congrArg (fun r => r.waiting.length) hroll
  have hrunning : (w.finish x o elapsed).1.running.length + 1 = w.running.length := by
    rw [show (w.finish x o elapsed).1.running = _ from congrArg Roll.running hroll]
    exact hlength
  refine ⟨.ofOutcome o, ⟨?_, ?_, ?_, ?_⟩, hsubmitted, habandoned, hfailures⟩
  · rw [hfinish, ← Totals.countOutcome_eq]
    rfl
  · simp [hwaiters, hadmitted, hrejected, habandoned, hsubmitted]
  · simp [Tally.ofOutcome_ended, hrunning, hadmitted]
  · rw [hfinish]
    simp [Tally.ofOutcome_ended, hfailures, delivering, settled, ended, withTotals]

theorem resume_tallies (hb : w.books.Sound) (call : Token) (now : Nat) :
    w.Tallies (w.resume call now).1 0 0 0 := by
  have heffect := w.resume_effect call now
  generalize w.resume call now = change at heffect ⊢
  cases heffect with
  | idle => exact w.tallies_self
  | respond => exact tallies_quiet rfl rfl rfl le_rfl
  | refuse asked | queue asked | launch asked | turnAway asked => cases asked
  | @resume call now v found isOpen granted accepts =>
    obtain ⟨mem, rfl⟩ := waiter?_mem found
    have hlength := Roll.without_length (roll_distinct hb) mem
    refine ⟨{ Tally.zero with admitted := 1 }, ⟨?_, ?_, ?_, ?_⟩, rfl, rfl, rfl⟩
    · simp [launched, unqueued, withTotals, Totals.plus, Tally.zero]
    · rw [waiters_length, waiters_length, launched_roll, unqueued_roll]
      exact hlength
    · simp [launched, unqueued, withTotals, Tally.zero, Tally.ended]
    · simp [launched, unqueued, withTotals, Tally.zero, Tally.ended]
  | @overtake call now v found isOpen granted refuses =>
    obtain ⟨mem, rfl⟩ := waiter?_mem found
    obtain ⟨htotals, hreporting⟩ := (w.unqueued v.call).endTicket_totals v.request true
    have hroll := congrArg Prod.fst ((w.unqueued v.call).endTicket_roll v.request true)
    rw [unqueued_roll] at hroll
    exact tallies_turnAway hb mem hroll htotals hreporting ..
  | @closeOut call now v found closed =>
    obtain ⟨mem, rfl⟩ := waiter?_mem found
    obtain ⟨htotals, hreporting⟩ := w.leave_totals v v.request
    exact tallies_turnAway hb mem (congrArg Prod.fst (w.leave_roll v v.request)) htotals
      hreporting ..

theorem abandon_tallies (hb : w.books.Sound) (call : Token) :
    w.Tallies (w.abandon call).1 0 (w.givesUp (.abandon call)).toNat 0 := by
  rw [Worker.abandon, givesUp]
  cases found : w.waiter? call with
  | none => exact w.tallies_self
  | some v =>
    obtain ⟨mem, rfl⟩ := waiter?_mem found
    obtain ⟨htotals, hreporting⟩ := w.leave_totals v v.request
    refine tallies_leave hb mem (congrArg Prod.fst (w.leave_roll v v.request)) hreporting
      (.inr rfl) ?_
    exact htotals.trans (by simp [Totals.plus, Tally.zero])

theorem turn_tallies (hb : w.books.Sound) (t : Token) (body : BodyTurn) (expired : Bool)
    (elapsed : Duration) : w.Tallies (w.turn t body expired elapsed).1 0 0 0 := by
  have hcancelled : ∀ c, w.Tallies (w.cancelledIf c t) 0 0 0 := by
    intro c
    cases c <;> exact tallies_quiet rfl rfl rfl le_rfl
  have hcarried : ∀ u : Worker, u.Tallies (u.carriedOn t) 0 0 0 := fun u =>
    tallies_quiet rfl rfl (List.length_map _) le_rfl
  rw [turn]
  cases found : w.execution? t with
  | none => exact w.tallies_self
  | some x =>
    have mem : x ∈ w.roll.running := List.mem_of_find?_eq_some found
    dsimp only
    split
    · have hbooks := w.cancelledIf_books (w.cancels (w.moment t body expired)) t
      rw [← cancelledIf_roll w (w.cancels (w.moment t body expired)) t] at mem
      exact (hcancelled _).trans (finish_tallies (hbooks ▸ hb) mem _ elapsed)
    · exact (hcancelled _).trans (hcarried _)

theorem reportEnded_tallies (w : Worker) (t : Token) (delivered : Bool) :
    w.Tallies (w.reportEnded t delivered).1 0 0
      (w.failsReport (.reportEnded t delivered)).toNat := by
  have hroll := congrArg Prod.fst (rollView.aside (w.reportEnded_aside t delivered))
  have hwaiting := congrArg Roll.waiting hroll
  have hrunning := congrArg (fun r => r.running.length) hroll
  have hreporting := w.reportEnded_reporting t delivered
  cases hfound : w.reporting.contains t with
  | false =>
    rw [reportEnded, failsReport, hfound]
    exact w.tallies_self
  | true =>
    have hfewer : (w.reporting.filter (· ≠ t)).length < w.reporting.length :=
      List.length_filter_lt_length_iff_exists.2 ⟨t, by simpa using hfound, by simp⟩
    cases delivered with
    | true =>
      have hlength : (w.reportEnded t true).1.reporting.length ≤ w.reporting.length := by
        rw [hreporting]
        exact hfewer.le
      rw [show w.failsReport (.reportEnded t true) = false from Bool.and_false _]
      refine tallies_quiet ?_ hwaiting hrunning hlength
      rw [reportEnded, if_pos hfound, noteDone_fst]
      rfl
    | false =>
      refine ⟨{ Tally.zero with reportFailures := 1 }, ⟨?_, ?_, ?_, ?_⟩, rfl, rfl, by
        rw [failsReport, hfound]; rfl⟩
      · rw [reportEnded, if_pos hfound, noteDone_fst]
        simp [withTotals, Totals.plus, Tally.zero]
      · rw [waiters_length, waiters_length]
        exact congrArg List.length hwaiting
      · exact hrunning
      · rw [hreporting]
        exact hfewer

theorem step_tallies (hb : w.books.Sound) (e : Event) :
    w.Tallies (w.step e).1 (w.submits e).toNat (w.givesUp e).toNat (w.failsReport e).toNat := by
  cases e with
  | submit r now =>
    rw [step, submits]
    cases w.dropped with
    | true => exact w.tallies_self
    | false => exact w.submit_tallies r now
  | message m freshId now =>
    rw [step, submits]
    cases w.dropped with
    | true => exact w.tallies_self
    | false =>
      rw [if_neg Bool.false_ne_true, message, Event.request?]
      cases m.dispatch freshId with
      | request r => exact w.submit_tallies r now
      | malformed fault => exact tallies_quiet rfl rfl rfl le_rfl
      | unhandled => exact tallies_quiet rfl rfl rfl le_rfl
  | resume call now =>
    rw [submits_eq_false rfl]
    exact resume_tallies hb call now
  | abandon call =>
    rw [submits_eq_false rfl]
    exact abandon_tallies hb call
  | turn t body expired elapsed =>
    rw [submits_eq_false rfl]
    exact turn_tallies hb t body expired elapsed
  | reportEnded t delivered =>
    rw [submits_eq_false rfl]
    exact w.reportEnded_tallies t delivered
  | shutdown =>
    rw [submits_eq_false rfl, step]
    split
    · exact w.tallies_self
    · obtain ⟨drains, hshutdown⟩ := w.shutdown_fst
      rw [hshutdown]
      exact tallies_quiet rfl rfl rfl le_rfl
  | resumeDrain call =>
    rw [submits_eq_false rfl]
    obtain ⟨drains, hdrain⟩ := w.resumeDrain_fst call
    rw [step, hdrain]
    exact tallies_quiet rfl rfl rfl le_rfl
  | drop =>
    rw [submits_eq_false rfl, step, Worker.drop]
    split
    · exact w.tallies_self
    · split
      · exact tallies_quiet rfl rfl rfl le_rfl
      · exact tallies_quiet rfl rfl rfl le_rfl

theorem run_tallies (hb : w.books.Sound) (events : List Event) :
    w.Tallies (w.run events).1 (w.submissions events) (w.abandonments events)
      (w.failedReports events) := by
  induction events generalizing w with
  | nil => exact w.tallies_self
  | cons e rest ih =>
    exact (step_tallies hb e).trans (ih ((step_booking hb e).sound hb))

/-- The counters of a worker say what has become of its submissions. -/
structure Balanced (w : Worker) (submissions abandonments failedReports : Nat) : Prop where
  submitted : w.totals.submitted.toNat = submissions
  calls : submissions = w.totals.admitted.toNat + w.totals.rejected.toNat + w.waiters.length +
    abandonments
  executions : w.totals.admitted.toNat = w.totals.ended + w.running.length
  failures : w.totals.reportFailures.toNat = failedReports
  reports : failedReports ≤ w.totals.ended
  waitingCount : w.registry.waitingCount = w.waiters.length
  activeCount : w.registry.activeCount = w.running.length

variable {meter : Meter} {config : Config} {g : Tally}

theorem Adds.from_start (hadds : w.Adds u g) (h : start meter config = .ok w) :
    u.totals = Totals.zero.plus g ∧
      u.waiters.length + g.admitted + g.rejected + g.abandoned = g.submitted ∧
      u.running.length + g.ended = g.admitted ∧ g.reportFailures ≤ g.ended := by
  obtain ⟨htotals, hcalls, hexecutions, hreports⟩ := hadds
  rw [start_eq h] at htotals hcalls hexecutions hreports
  simp only [List.length_nil, Nat.zero_add] at hcalls hexecutions hreports
  exact ⟨htotals, hcalls, hexecutions, (Nat.le_add_left ..).trans hreports⟩

theorem Adds.shows (hadds : w.Adds u g) (h : start meter config = .ok w)
    (few : g.submitted < 2 ^ 64) : u.totals.Shows g := by
  obtain ⟨htotals, hcalls, hexecutions, hreports⟩ := hadds.from_start h
  rw [htotals]
  exact Totals.zero_plus_shows few (by omega) (by omega) hreports

theorem Adds.balanced (hadds : w.Adds u g) (h : start meter config = .ok w)
    (few : g.submitted < 2 ^ 64) (hb : u.books.Sound) :
    u.Balanced g.submitted g.abandoned g.reportFailures := by
  have hshows := hadds.shows h few
  obtain ⟨-, hcalls, hexecutions, hreports⟩ := hadds.from_start h
  have hended := hshows.ended
  refine ⟨hshows.submitted, ?_, ?_, hshows.reportFailures, ?_, ?_, ?_⟩
  · rw [hshows.admitted, hshows.rejected]
    omega
  · rw [hshows.admitted]
    omega
  · rwa [hended]
  · rw [waiters_length]
    exact hb.waitingCount_eq
  · exact hb.activeCount_eq.trans (List.length_map _)

/-- In every state between the steps of a run with fewer submissions than a counter can hold, the
counters balance: every submission was admitted or rejected, waits for a slot, or was abandoned
while it waited; every task that was admitted runs or has ended in one of four ways; and as many
reports failed as returned an error. No counter is ever less than it was before. -/
theorem run_balanced (h : start meter config = .ok w) (events : List Event)
    (few : w.submissions events < 2 ^ 64) :
    (w.run events).1.Balanced (w.submissions events) (w.abandonments events)
      (w.failedReports events) ∧
    ∀ earlier later, events = earlier ++ later →
      (w.run earlier).1.totals.Le (w.run events).1.totals := by
  obtain ⟨g, hadds, hsubmitted, habandoned, hfailures⟩ := run_tallies (start_sound h) events
  constructor
  · rw [← hsubmitted, ← habandoned, ← hfailures]
    exact hadds.balanced h (hsubmitted ▸ few) (run_sound (start_sound h) events).1
  · rintro earlier later rfl
    have hb := (run_sound (start_sound h) earlier).1
    obtain ⟨g, hadds, hsubmitted, -⟩ := run_tallies (start_sound h) earlier
    obtain ⟨g', hadds', hsubmitted', -⟩ := run_tallies hb later
    -- the tally of the whole run extends that of its start, and neither overflows
    have hcount : (g.add g').submitted = w.submissions (earlier ++ later) := by
      rw [submissions, occurrences_append, Tally.add, hsubmitted, hsubmitted']
      rfl
    have hearlier := hadds.shows h (by
      refine lt_of_le_of_lt ?_ few
      rw [← hcount]
      exact Nat.le_add_right ..)
    have hlater := (hadds.trans hadds').shows h (hcount ▸ few)
    rw [run_append, Change.next_fst]
    exact hearlier.le hlater

theorem run_balanced_four : ∃ config, config =
      { Config.standard "w" with maxConcurrentTasks := 1 } ∧
    ∃ w, start .millionths config = .ok w ∧ ∃ c d,
      c = w.run [.submit (.new "a" .null) 0, .submit (.new "b" .null) 0] ∧
      d = w.run [.submit (.new "a" .null) 0, .submit (.new "b" .null) 0,
        .submit (.new "c" .null) 0, .abandon 2, .submit (.new "a" .null) 0,
        .turn 0 ⟨false, some (.completed .empty)⟩ false .zero, .reportEnded 0 false] ∧
      d.1.Balanced 4 1 1 ∧ d.1.waiters.length = 1 ∧ d.1.totals.completed = 1 ∧
      c.1.totals.Le d.1.totals := by
  refine ⟨_, rfl, _, rfl, _, _, rfl, rfl, ?_⟩
  obtain ⟨hbalanced, hle⟩ := run_balanced (show start .millionths
    { Config.standard "w" with maxConcurrentTasks := 1 } = .ok _ from rfl)
    [.submit (.new "a" .null) 0, .submit (.new "b" .null) 0, .submit (.new "c" .null) 0,
      .abandon 2, .submit (.new "a" .null) 0,
      .turn 0 ⟨false, some (.completed .empty)⟩ false .zero, .reportEnded 0 false] (by decide)
  exact ⟨hbalanced, rfl, rfl, hle [_, _] [_, _, _, _, _] rfl⟩

end Worker

end BoundedWorker
