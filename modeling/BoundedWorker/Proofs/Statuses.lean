import BoundedWorker.Proofs.Reports
import Mathlib.Data.Set.Card

/-!
Statuses. From one step to the next an identifier that is not known comes to wait or to run, what
waits comes to run or is known no more, and what runs is known no more. An identifier has a status
as long as a ticket with it is out, and one that runs shows what the request asked for that was
admitted under it last, whatever had been admitted under it before.
-/

namespace BoundedWorker

/-- How a status goes on in a step. What runs keeps its priority and its resources. -/
inductive TaskStatus.Follows : Option TaskStatus → Option TaskStatus → Prop where
  | unknown : Follows none none
  | reserved : Follows none (some .awaitingSlot)
  | started (elapsed : Duration) (priority : Int32) (required : Profile) :
      Follows none (some (.running elapsed priority required))
  | waits : Follows (some .awaitingSlot) (some .awaitingSlot)
  | promoted (elapsed : Duration) (priority : Int32) (required : Profile) :
      Follows (some .awaitingSlot) (some (.running elapsed priority required))
  | left : Follows (some .awaitingSlot) none
  | runs (before after : Duration) (priority : Int32) (required : Profile) :
      Follows (some (.running before priority required)) (some (.running after priority required))
  | ended (elapsed : Duration) (priority : Int32) (required : Profile) :
      Follows (some (.running elapsed priority required)) none

namespace Entry

inductive Next : Option Entry → Option Entry → Prop where
  | stay (entry : Option Entry) : Next entry entry
  | enter (entry : Entry) : Next none (some entry)
  | promote (handle : Handle) : Next (some .waiting) (some (.running handle))
  | leave (entry : Entry) : Next (some entry) none

theorem Next.follows {before after : Option Entry} (h : Next before after) (now later : Nat) :
    TaskStatus.Follows (before.map (status now)) (after.map (status later)) := by
  cases h with
  | stay =>
    rcases before with _ | (_ | handle)
    · exact .unknown
    · exact .waits
    · exact .runs _ _ _ _
  | enter entry =>
    cases entry with
    | waiting => exact .reserved
    | running handle => exact .started _ _ _
  | promote handle => exact .promoted _ _ _
  | leave entry =>
    cases entry with
    | waiting => exact .left
    | running handle => exact .ended _ _ _

end Entry

namespace Books

variable {b : Books} {c : Books × List LedgerAlarm}

theorem Sound.exists_entryOf (h : b.Sound) {t : Ticket} (ht : t ∈ b.tickets) :
    ∃ entry, b.registry.entryOf t.id = some entry := by
  rcases List.mem_append.1 ht with ht | ht
  · exact ⟨_, h.entryOf_of_waiting ht⟩
  · obtain ⟨since, hentry⟩ := h.entryOf_of_running ht
    exact ⟨_, hentry⟩

namespace Booking

theorem mem_tickets (h : b.Booking c) (hb : b.Sound) {t : Ticket} (ht : t ∈ c.1.tickets) :
    t ∈ b.tickets ∨ b.registry.contains t.id = false := by
  have hreserve : ∀ {r : TaskRequest} {ledger : Ledger}, b.registry.contains r.taskId = false →
      t ∈ (b.reserve r ledger).tickets → t ∈ b.tickets ∨ b.registry.contains t.id = false := by
    intro r ledger fresh ht
    rcases List.mem_cons.1 ((Sound.reserve_tickets b r ledger).mem_iff.1 ht) with rfl | ht
    · exact .inr fresh
    · exact .inl ht
  cases h with
  | idle | number => exact .inl ht
  | reserve r fresh fits => exact hreserve fresh ht
  | start r now fresh fits =>
    exact hreserve fresh (((hb.reserve fresh fits).promote_tickets (new_mem ..) now).mem_iff.1 ht)
  | turnAway r fresh fits =>
    exact hreserve fresh
      ((hb.reserve fresh fits).close_not_mem (Sound.waiting_mem (new_mem ..)) ht).1
  | promote mem now => exact .inl ((hb.promote_tickets mem now).mem_iff.1 ht)
  | close mem => exact .inl (hb.close_not_mem mem ht).1

/-- From one step to the next, an identifier does not pass from one ticket to another. -/
theorem eq_of_id (h : b.Booking c) (hb : b.Sound) {t u : Ticket} (ht : t ∈ b.tickets)
    (hu : u ∈ c.1.tickets) (he : t.id = u.id) : t = u := by
  rcases h.mem_tickets hb hu with hu | fresh
  · exact hb.eq_of_id ht hu he
  · exact absurd ((hb.contains_iff u.id).2 ⟨t, ht, he⟩) (Bool.eq_false_iff.1 fresh)

theorem entry_next (h : b.Booking c) (hb : b.Sound) (id : String) :
    Entry.Next (b.registry.entryOf id) (c.1.registry.entryOf id) := by
  have hnew : ∀ {r : TaskRequest}, b.registry.contains r.taskId = false → r.taskId = id →
      b.registry.entryOf id = none := by
    rintro r fresh rfl
    exact (b.registry.entryOf_eq_none_iff _).2 fresh
  cases h with
  | idle | number => exact .stay _
  | reserve r fresh fits =>
    rw [Books.reserve, Registry.entryOf_insertWaiting fresh]
    split
    · rw [hnew fresh ‹_›]
      exact .enter _
    · exact .stay _
  | start r now fresh fits =>
    rw [Books.promote, Registry.entryOf_promote, Books.reserve,
      Registry.entryOf_insertWaiting fresh]
    by_cases he : r.taskId = id
    · rw [hnew fresh he]
      simp only [Ticket.id, he, if_true]
      exact .enter _
    · simp only [Ticket.id, he, if_false]
      exact .stay _
  | turnAway r fresh fits =>
    rw [(hb.reserve fresh fits).close_entryOf (Sound.waiting_mem (new_mem ..)), Books.reserve,
      Registry.entryOf_insertWaiting fresh]
    by_cases he : r.taskId = id
    · simp only [Ticket.id, he, if_true]
      rw [hnew fresh he]
      exact .stay _
    · simp only [Ticket.id, he, if_false]
      exact .stay _
  | @promote t mem now =>
    rw [Books.promote, Registry.entryOf_promote]
    split
    · subst id
      rw [hb.entryOf_of_waiting mem]
      exact .promote _
    · exact .stay _
  | @close t mem =>
    rw [hb.close_entryOf mem]
    split
    · subst id
      obtain ⟨entry, hentry⟩ := hb.exists_entryOf mem
      rw [hentry]
      exact .leave _
    · exact .stay _

end Booking

end Books

namespace Stage

variable {asked : TaskRequest → Prop} {call : Token} {notices : List Notice}

theorem Tells.of_running {r : TaskRequest} {started : Bool}
    (h : (Stage.running r started).Tells asked call notices) :
    asked r ∧ .answered call (.ok r.taskId) ∈ notices ∧ results call notices = [] := by
  cases h with
  | running started asked => exact ⟨asked, by simp [welcome], by simp⟩

theorem Tells.taskId_of_running {r : TaskRequest} {started : Bool}
    (h : (Stage.running r started).Tells asked call notices) {id : String}
    (ok : .answered call (.ok id) ∈ notices) : r.taskId = id := by
  cases h with
  | running started asked => exact ok_mem_told [] (by simp) (by simpa using ok)

end Stage

theorem encard_of_nodup {ids : List String} (distinct : ids.Nodup) {s : Set String}
    (h : ∀ id, id ∈ s ↔ id ∈ ids) : s.encard = ids.length := by
  have hset : s = ids.toFinset := Set.ext fun id => by simp [h]
  rw [hset, Set.encard_coe_eq_coe_finsetCard, List.toFinset_card_of_nodup distinct]

namespace Worker

variable {w : Worker}

theorem status?_eq (w : Worker) (now : Nat) (id : String) :
    w.status? now id = (w.registry.entryOf id).map (Entry.status now) :=
  w.registry.status?_eq now id

theorem status?_isSome_iff (hb : w.books.Sound) (now : Nat) (id : String) :
    (w.status? now id).isSome = true ↔ ∃ t ∈ w.tickets, t.id = id := by
  have hnone := w.registry.entryOf_eq_none_iff id
  rw [status?_eq, Option.isSome_map, Option.isSome_iff_ne_none, ne_eq, hnone, Bool.not_eq_false]
  exact hb.contains_iff id

theorem status?_running (hb : w.books.Sound) {now : Nat} {id : String} {elapsed : Duration}
    {priority : Int32} {required : Profile}
    (h : w.status? now id = some (.running elapsed priority required)) :
    ∃ x ∈ w.running, x.request.taskId = id ∧ x.request.priority = priority ∧
      x.request.required = required := by
  rw [status?, Registry.status?] at h
  split at h
  · obtain ⟨-, rfl, rfl⟩ := TaskStatus.running.inj (Option.some.inj h)
    rename_i handle hget
    obtain ⟨t, ht, rfl⟩ := hb.running_of_handle id handle hget
    obtain ⟨since, hsame⟩ := hb.handle_of_running t ht
    obtain rfl := Option.some.inj (hget.symm.trans hsame)
    obtain ⟨x, hx, rfl⟩ := List.mem_map.1 ht
    exact ⟨x, hx, rfl, rfl, rfl⟩
  · split at h <;> cases h

theorem encard_waiting (hb : w.books.Sound) (now : Nat) :
    {id | w.status? now id = some .awaitingSlot}.encard = w.snapshot.queueSize := by
  refine encard_of_nodup hb.apart.once fun id => ?_
  have hmem : id ∈ w.books.registry.waiting ↔ w.registry.entryOf id = some .waiting :=
    hb.apart.mem_waiting_iff
  rw [Set.mem_ofPred_eq, status?_eq, Option.map_eq_some_iff, hmem]
  simp only [Entry.status_eq_awaitingSlot_iff, exists_eq_right]

theorem encard_running (w : Worker) (now : Nat) :
    {id | ∃ elapsed priority required,
      w.status? now id = some (.running elapsed priority required)}.encard =
        w.snapshot.activeTasks := by
  have hsize : w.snapshot.activeTasks = w.registry.running.names.length := by
    simp [Worker.snapshot, Snapshot.new, Registry.activeCount, Table.size, Table.names]
  rw [hsize]
  refine encard_of_nodup w.registry.running.names_nodup fun id => ?_
  rw [Set.mem_ofPred_eq, Table.mem_names_iff, Table.contains, Option.isSome_iff_exists, status?,
    Registry.status?]
  cases hget : w.registry.running.get? id with
  | some handle => simp
  | none =>
    simp

/-- A request runs under an identifier: it was asked for with a call, the call was answered with the
identifier, and its result has not been reported, whereas every other call that was answered with
the identifier has been reported. -/
structure Incumbent (w : Worker) (events : List Event) (id : String) (call : Token)
    (r : TaskRequest) : Prop where
  asked : w.Asked events call r
  own : r.taskId = id
  admitted : .answered call (.ok id) ∈ (w.run events).2
  runs : results call (w.run events).2 = []
  others : ∀ other, .answered other (.ok id) ∈ (w.run events).2 → other ≠ call →
    ∃ result, results other (w.run events).2 = [result]

variable {meter : Meter} {config : Config}

theorem incumbent_of_running (h : start meter config = .ok w) (events : List Event)
    {x : Execution} (hx : x ∈ (w.run events).1.running) :
    w.Incumbent events x.request.taskId x.token x.request := by
  have hb := (run_sound (start_sound h) events).1
  have htells := run_tells h events x.token
  rw [Roll.stage_running (roll_distinct hb) hx] at htells
  obtain ⟨asked, admitted, runs⟩ := htells.of_running
  rw [results_story] at runs
  refine ⟨asked, rfl, (mem_story.1 admitted).1, runs, fun other ok hne => ?_⟩
  have hother := run_tells h events other
  have ok' := mem_story.2 ⟨ok, rfl⟩
  obtain ⟨-, ⟨⟨r, started, hstage⟩, -⟩ | ⟨-, result, hone, -⟩⟩ := hother.of_ok ok'
  · -- it would be a second execution with the identifier
    obtain ⟨y, found, rfl⟩ := exists_execution_of_stage hstage
    obtain ⟨hy, rfl⟩ := execution?_mem found
    have hid := (hstage ▸ hother).taskId_of_running ok'
    have hsame := hb.eq_of_id (Books.Sound.running_mem hy)
      (Books.Sound.running_mem (List.mem_map_of_mem hx)) hid
    exact absurd (congrArg Ticket.call hsame) hne
  · exact ⟨result, results_story other _ ▸ hone⟩

/-- After every run: who has a status has a ticket that is out; what runs shows what was admitted
under its identifier last; in every step a status goes on as `TaskStatus.Follows` says, and an
identifier that has a ticket before and after has the same one; and the numbers of tasks that wait
and that run are those of the identifiers whose status says so. -/
theorem run_statuses (h : start meter config = .ok w) (events : List Event) (now : Nat) :
    (∀ id, ((w.run events).1.status? now id).isSome = true ↔
      ∃ t ∈ (w.run events).1.tickets, t.id = id) ∧
    (∀ id elapsed priority required,
      (w.run events).1.status? now id = some (.running elapsed priority required) →
        ∃ call r, w.Incumbent events id call r ∧ priority = r.priority ∧ required = r.required) ∧
    (∀ e later id,
      TaskStatus.Follows ((w.run events).1.status? now id)
        (((w.run events).1.step e).1.status? later id) ∧
      ∀ t ∈ (w.run events).1.tickets, ∀ u ∈ ((w.run events).1.step e).1.tickets,
        t.id = id → u.id = id → t = u) ∧
    {id | (w.run events).1.status? now id = some .awaitingSlot}.encard =
      (w.run events).1.snapshot.queueSize ∧
    {id | ∃ elapsed priority required,
      (w.run events).1.status? now id = some (.running elapsed priority required)}.encard =
        (w.run events).1.snapshot.activeTasks := by
  have hb := (run_sound (start_sound h) events).1
  refine ⟨status?_isSome_iff hb now, fun id elapsed priority required hstatus => ?_,
    fun e later id => ⟨?_, fun t ht u hu hid hid' => ?_⟩, encard_waiting hb now,
    encard_running _ now⟩
  · obtain ⟨x, hx, rfl, rfl, rfl⟩ := status?_running hb hstatus
    exact ⟨x.token, x.request, incumbent_of_running h events hx, rfl, rfl⟩
  · rw [status?_eq, status?_eq]
    exact ((step_booking hb e).entry_next hb id).follows now later
  · exact (step_booking hb e).eq_of_id hb ht hu (hid.trans hid'.symm)

theorem run_statuses_reused : ∃ config, config =
      { Config.standard "w" with maxConcurrentTasks := 1 } ∧
    ∃ w, start .millionths config = .ok w ∧ ∃ events,
      events = [.submit (.new "a" .null) 0, .submit (.new "b" .null) 1, .abandon 1,
        .turn 0 ⟨false, some (.completed .empty)⟩ false .zero,
        .submit { TaskRequest.new "a" .null with priority := 7 } 3] ∧
      (∃ call r, w.Incumbent events "a" call r ∧ 7 = r.priority) ∧
      (∀ t ∈ (w.run events).1.tickets, t.id ≠ "b") ∧
      TaskStatus.Follows ((w.run events).1.status? 4 "a")
        (((w.run events).1.step (.turn 2 .idle true .zero)).1.status? 5 "a") ∧
      (w.run events).1.snapshot.activeTasks = 1 := by
  refine ⟨_, rfl, _, rfl, _, rfl, ?_⟩
  obtain ⟨hsome, hruns, hfollows, -, -⟩ := run_statuses
    (show start .millionths { Config.standard "w" with maxConcurrentTasks := 1 } = .ok _ from rfl)
    [.submit (.new "a" .null) 0, .submit (.new "b" .null) 1, .abandon 1,
      .turn 0 ⟨false, some (.completed .empty)⟩ false .zero,
      .submit { TaskRequest.new "a" .null with priority := 7 } 3] 4
  obtain ⟨call, r, hincumbent, hpriority, -⟩ := hruns "a" _ 7 _ rfl
  refine ⟨⟨call, r, hincumbent, hpriority⟩, fun t ht hid => ?_, (hfollows _ 5 "a").1, rfl⟩
  have hstatus := (hsome "b").2 ⟨t, ht, hid⟩
  cases hstatus

end Worker

end BoundedWorker
