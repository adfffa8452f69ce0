import BoundedWorker.Proofs.Ceiling
import BoundedWorker.Proofs.Metering
import BoundedWorker.Proofs.Shutdown

/-!
Capacity. When nothing waits or runs, every slot is free, nothing is committed, and no identifier is
taken, whatever became of the submissions before; so a worker that accepts takes on any request that
is within its limits, and at once. Of the meter this needs only that it is monotone.
-/

namespace BoundedWorker

def Profile.Within (required limits : Profile) : Prop :=
  ∀ kind amount limit, required.get? kind = some amount → limits.get? kind = some limit →
    amount ≤ limit

theorem Config.slots_pos {config : Config} (h : config.validate = .ok ()) :
    0 < config.maxConcurrentTasks.toNat := by
  rw [Config.validate] at h
  split at h
  · cases h
  · rename_i hslots
    refine Nat.pos_of_ne_zero fun hzero => hslots ?_
    exact UInt64.toNat_inj.1 hzero

theorem Roll.Turn.calls_le {e : Event} {r : Roll} {c : Roll × List Notice} (h : r.Turn e c) :
    r.calls ≤ c.1.calls := by
  cases h with
  | number | refuse | wait | launch => exact Nat.le_succ _
  | stay | resume | turnAway | abandon | carryOn | finish => exact Nat.le_refl _

namespace Ledger

theorem fits_of_le {l : Ledger} (free : ∀ kind, l.committed kind = 0) {kind : String}
    {amount : Float}
    (le : ∀ limit, l.limits.get? kind = some limit → l.meter.units amount ≤ limit) :
    l.fits kind amount = true := by
  rw [fits_iff, free, Nat.zero_add]
  refine ⟨l.meter.units_le amount, ?_⟩
  rw [ceiling]
  cases hlimit : l.limits.get? kind with
  | none => exact l.meter.units_le amount
  | some limit => exact le limit hlimit

theorem commit_of_within {l : Ledger} {limits required : Profile}
    (free : ∀ kind, l.committed kind = 0) (hlimits : l.limits = limits.map l.meter.units)
    (mono : l.meter.Monotone) (within : required.Within limits) :
    l.commit required = .ok (l.addAll required.entries) := by
  refine commit_eq_ok_iff.2 ⟨(check_eq_ok_iff ..).2 fun kind amount hget => ?_, rfl⟩
  refine fits_of_le free fun units hunits => ?_
  rw [hlimits, Table.get?_map, Option.map_eq_some_iff] at hunits
  obtain ⟨limit, hlimit, rfl⟩ := hunits
  exact mono amount limit (within kind amount limit hget hlimit)

end Ledger

namespace Worker

variable {w : Worker}

/-- A worker to which everything has been given back. -/
structure Whole (w : Worker) (n : Nat) : Prop where
  waiters : w.waiters = []
  running : w.running = []
  freeSlots : w.freeSlots = n
  registry : ∀ id, w.registry.contains id = false
  committed : ∀ kind, w.ledger.committed kind = 0

theorem whole_of_counts {n : Nat} {calls : List Token} (hb : w.books.Sound)
    (hslots : w.slots.Kept n calls) (waiting : w.registry.waitingCount = 0)
    (active : w.registry.activeCount = 0) : w.Whole n := by
  have hwaiters : w.waiters = [] := by
    have hcount := hb.waitingCount_eq.symm.trans waiting
    exact List.map_eq_nil_iff.1 (List.eq_nil_of_length_eq_zero hcount)
  have hrunning : w.running = [] := by
    have hcount := hb.activeCount_eq.symm.trans active
    exact List.map_eq_nil_iff.1 (List.eq_nil_of_length_eq_zero hcount)
  have htickets : w.books.tickets = [] := by
    simp [Books.tickets, books, hwaiters, hrunning]
  refine ⟨hwaiters, hrunning, ?_, fun id => ?_, fun kind => ?_⟩
  -- with nobody to hold a slot, the balance leaves all of them free
  · simpa [slots, Slots.held, hwaiters, hrunning] using hslots.balance
  · refine Bool.eq_false_iff.2 fun hcontains => ?_
    obtain ⟨t, ht, -⟩ := (hb.contains_iff id).1 hcontains
    simp [htickets] at ht
  · have hsum := hb.committed kind
    rw [htickets] at hsum
    exact hsum

theorem reportEnded_cancelled (w : Worker) (t : Token) (delivered : Bool) :
    (w.reportEnded t delivered).1.cancelled = w.cancelled := by
  rw [reportEnded]
  split
  · cases delivered with
    | true => simp [noteDone_fst]
    | false => simp [noteDone_fst, withTotals]
  · rfl

theorem step_cancelled {e : Event} (accepts : (w.step e).1.accepting = true) {t : Token}
    (mem : t ∈ (w.step e).1.cancelled) : t ∈ w.cancelled ∨ ∃ x ∈ w.running, x.token = t := by
  have hrest : ∀ {w' : Worker}, w'.rest = w.rest → t ∈ w'.cancelled → t ∈ w.cancelled := by
    intro w' hw' mem
    have hcancelled : w'.cancelled = w.cancelled := congrArg Rest.cancelled hw'
    rwa [← hcancelled]
  have heffect := w.step_effect e
  generalize w.step e = change at heffect accepts mem
  cases heffect with
  | idle | respond | refuse | queue | launch | resume => exact .inl mem
  | @turnAway _ r now ledger asked decided closed =>
    exact .inl (hrest ((w.opened.reserved r ledger).endTicket_rest r false) mem)
  | @overtake call now v found isOpen granted refuses =>
    exact .inl (hrest ((w.unqueued call).endTicket_rest v.request true) mem)
  | @closeOut call now v found closed => exact .inl (hrest (w.leave_rest v v.request) mem)
  | @abandon call v found => exact .inl (hrest (w.leave_rest v v.request) mem)
  | @carryOn t' body expired x elapsed found undecided =>
    refine (cancelledIf_cancelled mem).imp_right ?_
    rintro rfl
    exact ⟨x, List.mem_of_find?_eq_some found, (execution?_mem found).2⟩
  | @finish t' body expired x o elapsed found decided =>
    rw [Change.next_fst, finish_cancelled] at mem
    refine (cancelledIf_cancelled mem).imp_right ?_
    rintro rfl
    exact ⟨x, List.mem_of_find?_eq_some found, (execution?_mem found).2⟩
  | reportEnded t' delivered =>
    exact .inl (w.reportEnded_cancelled t' delivered ▸ mem)
  | shutdown =>
    obtain ⟨drains, hshutdown⟩ := w.shutdown_fst
    rw [hshutdown] at accepts
    cases accepts
  | resumeDrain call =>
    obtain ⟨drains, hdrain⟩ := w.resumeDrain_fst call
    rw [hdrain] at mem
    exact .inl mem
  | drop =>
    rw [Worker.drop] at mem
    split at mem
    · exact .inl mem
    · split at mem
      · exact .inl mem
      · exact .inl mem

theorem run_cancelled_lt {meter : Meter} {config : Config} (h : start meter config = .ok w)
    (events : List Event) : (w.run events).1.accepting = true →
      ∀ t ∈ (w.run events).1.cancelled, t < (w.run events).1.calls := by
  refine run_induction (P := fun _ c => c.1.accepting = true → ∀ t ∈ c.1.cancelled,
    t < c.1.calls) (fun _ t mem => ?_) (fun earlier e ih accepts t mem => ?_) events
  · rw [start_eq h] at mem
    cases mem
  · have hb := (run_sound (start_sound h) earlier).1
    have hs := run_switched (start_switched h) earlier
    -- a worker that accepts has accepted all along
    have haccepted : (w.run earlier).1.accepting = true := by
      cases hrefuses : (w.run earlier).1.accepting with
      | true => rfl
      | false =>
        have hstopped := step_stopped (hs.stopped_of_refuses hrefuses) e
        exact absurd accepts (by simp [hstopped.refuses])
    refine Nat.lt_of_lt_of_le ?_ (step_turn (w.run earlier).1 e).calls_le
    rcases step_cancelled accepts mem with hold | ⟨x, hx, rfl⟩
    · exact ih haccepted t hold
    · exact (roll_distinct hb).running_lt x hx

theorem turn_starts {x : Execution} (found : w.execution? x.token = some x)
    (fresh : x.started = false) (lives : w.isCancelled x.token = false) (body : BodyTurn)
    (expired : Bool) (elapsed : Duration) :
    .started x.token ∈ (w.turn x.token body expired elapsed).2 := by
  have hran : ((w.moment x.token body expired).verdict w.config.timeout).bodyRan = true := by
    have hlives : (w.moment x.token body expired).cancelled = false := lives
    rw [Moment.verdict, if_neg (by simp [hlives])]
    split
    · rfl
    · split <;> rfl
  have hbegins : beginning x ((w.moment x.token body expired).verdict w.config.timeout) =
      [.started x.token] := by
    rw [beginning, hran, fresh]
    rfl
  rw [turn, found]
  dsimp only
  rw [hbegins]
  split
  · exact List.mem_append_left _ (List.mem_singleton_self _)
  · exact List.mem_append_left _ (List.mem_singleton_self _)

theorem submit_within {n : Nat} {limits : Profile} (hw : w.Whole n) (hn : 0 < n)
    (accepts : w.accepting = true) (isOpen : w.slotsClosed = false)
    (hlimits : w.ledger.limits = limits.map w.ledger.meter.units)
    (mono : w.ledger.meter.Monotone) {r : TaskRequest} {now : Nat} (valid : r.validate = .ok ())
    (timely : (r.deadline.any fun d => d.val < now) = false) (within : r.required.Within limits) :
    w.submit r now = ((w.opened.reserved r (w.ledger.addAll r.required.entries)).slotTaken.launched
      w.calls r now, [.launched w.calls, .answered w.calls (.ok r.taskId)]) := by
  have hdecide : w.opened.decide r now = .ok (w.ledger.addAll r.required.entries) := by
    have haccepts : w.opened.accepting = true := accepts
    have hfresh : w.opened.registry.contains r.taskId = false := hw.registry r.taskId
    have hcommit : w.opened.ledger.commit r.required = .ok (w.ledger.addAll r.required.entries) :=
      Ledger.commit_of_within hw.committed hlimits mono within
    simp [decide, valid, timely, haccepts, hfresh, hcommit]
  have hclosed : (w.opened.reserved r (w.ledger.addAll r.required.entries)).slotsClosed = false :=
    isOpen
  have hfree : 0 < (w.opened.reserved r (w.ledger.addAll r.required.entries)).freeSlots :=
    hw.freeSlots.symm ▸ hn
  have haccepts : (w.opened.reserved r (w.ledger.addAll r.required.entries)).slotTaken.accepting =
      true := accepts
  rw [submit, hdecide]
  simp [acquire, hclosed, hfree, Worker.launch, haccepts]

/-- A request is admitted as the next call, and its task starts without waiting for anybody. -/
structure Begins (w : Worker) (c : Change) (r : TaskRequest) : Prop where
  notices : c.2 = [.launched w.calls, .answered w.calls (.ok r.taskId)]
  waiters : c.1.waiters = []
  running : c.1.running = [⟨w.calls, r, false⟩]
  status : ∀ now, ∃ elapsed,
    c.1.status? now r.taskId = some (.running elapsed r.priority r.required)
  starts : ∀ body expired elapsed,
    .started w.calls ∈ (c.1.step (.turn w.calls body expired elapsed)).2

theorem launched_begins {n : Nat} (hw : w.Whole n) (lives : w.stopped = false)
    (unseen : w.calls ∉ w.cancelled) {r : TaskRequest} {now : Nat} {ledger : Ledger} {c : Change}
    (h : c = ((w.opened.reserved r ledger).slotTaken.launched w.calls r now,
      [.launched w.calls, .answered w.calls (.ok r.taskId)])) : w.Begins c r := by
  have hrunning : c.1.running = [⟨w.calls, r, false⟩] := by
    rw [h]
    exact congrArg (· ++ _) hw.running
  refine ⟨by rw [h], ?_, hrunning, fun now' => ?_, fun body expired elapsed => ?_⟩
  · rw [h]
    exact hw.waiters
  · rw [h]
    refine ⟨(Duration.ofMillis? (now' - now)).getD .longest, ?_⟩
    simp [status?, launched, withTotals, Registry.status?, Registry.promote, Table.get?_insert]
  · have hfound : c.1.execution? w.calls = some ⟨w.calls, r, false⟩ := by
      simp [execution?, hrunning]
    have hcancelled : c.1.isCancelled w.calls = w.isCancelled w.calls := by
      rw [h]
      rfl
    refine turn_starts (x := ⟨w.calls, r, false⟩) hfound rfl (hcancelled.trans ?_) body expired
      elapsed
    simp [isCancelled, lives, unseen]

variable {meter : Meter} {config : Config}

theorem start_valid (h : start meter config = .ok w) : config.validate = .ok () := by
  rw [start] at h
  split at h
  · cases h
  · assumption

theorem run_meter (h : start meter config = .ok w) (events : List Event) :
    (w.run events).1.ledger.meter = meter := by
  obtain ⟨ops, hops⟩ := run_ledger (start_sound h) events
  rw [hops, Ledger.run_meter, show w.ledger = .new meter config.limits from
    congrArg Books.ledger (start_books h)]
  rfl

/-- After every run that leaves an accepting worker with nothing waiting or running, whatever became
of the submissions before, a valid request whose deadline has not expired and that asks for no more
than the limit of any kind is admitted, and its task starts at once. -/
theorem run_capacity (h : start meter config = .ok w) (mono : meter.Monotone)
    (events : List Event) (accepts : (w.run events).1.accepting = true)
    (waiting : (w.run events).1.registry.waitingCount = 0)
    (active : (w.run events).1.registry.activeCount = 0) {e : Event} {r : TaskRequest} {now : Nat}
    (asked : e.request? = some (r, now)) (valid : r.validate = .ok ())
    (timely : ∀ d ∈ r.deadline, now ≤ d.val) (within : r.required.Within config.limits) :
    (w.run events).1.Begins ((w.run events).1.step e) r := by
  have hb := (run_sound (start_sound h) events).1
  have hwhole := whole_of_counts hb (run_kept (start_sound h) (start_kept h) events) waiting active
  have hserves := (run_switched (start_switched h) events).serving_of_accepts accepts
  have hmeter := run_meter h events
  have hpositive := Config.slots_pos (start_valid h)
  have htimely : (r.deadline.any fun d => d.val < now) = false := by
    cases hdeadline : r.deadline with
    | none => rfl
    | some d => simpa using timely d hdeadline
  -- the call that comes next is one that nobody has cancelled
  have hunseen : (w.run events).1.calls ∉ (w.run events).1.cancelled := fun mem =>
    Nat.lt_irrefl _ (run_cancelled_lt h events accepts _ mem)
  exact launched_begins hwhole hserves.lives hunseen ((step_request hserves.remains asked).trans
    (submit_within hwhole hpositive accepts hserves.isOpen (run_limits h events)
      (hmeter.symm ▸ mono) valid htimely within))

theorem run_capacity_full : ∃ config, config =
      { Config.standard "w" with maxConcurrentTasks := 1 } ∧
    ∃ w, start .millionths config = .ok w ∧ ∃ c r,
      c = w.run [.submit (.new "a" .null) 0, .submit (.new "b" .null) 0,
        .submit (.new "c" .null) 0, .abandon 2,
        .submit { TaskRequest.new "d" .null with required := Table.ofList [(Profile.cpu, 3)] } 0,
        .turn 0 ⟨false, some (.panicked .noText)⟩ false .zero, .resume 1 0,
        .turn 1 ⟨false, none⟩ true .zero] ∧
      r = { TaskRequest.new "a" .null with
        deadline := some ⟨7, by decide⟩, required := config.limits } ∧
      c.1.Begins (c.1.step (.submit r 7)) r := by
  refine ⟨_, rfl, _, rfl, _, _, rfl, rfl, ?_⟩
  refine run_capacity (show start .millionths
    { Config.standard "w" with maxConcurrentTasks := 1 } = .ok _ from rfl) millionths_monotone _
    ?accepts ?waiting ?active (e := .submit _ _) rfl ?valid ?timely ?within
  case accepts => decide +kernel
  case waiting => decide +kernel
  case active => decide +kernel
  case valid => rfl
  case timely =>
    rintro d ⟨⟩
    exact Nat.le_refl 7
  case within =>
    intro kind amount limit hamount hlimit
    obtain rfl := Option.some.inj (hamount.symm.trans hlimit)
    have mem : (kind, amount) ∈ [(Profile.cpu, (2 : Float)), (Profile.memory, 8)] :=
      Table.mem_entries_iff.2 hamount
    rcases List.mem_pair.1 mem with ⟨⟨⟩⟩ | ⟨⟨⟩⟩ <;> decide

end Worker

end BoundedWorker
