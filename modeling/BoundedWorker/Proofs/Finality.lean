import BoundedWorker.Proofs.Closing
import BoundedWorker.Proofs.Reports
import BoundedWorker.Proofs.Slots

/-!
Finality. Once a worker is closed, by a shutdown or by its drop, nothing is admitted or begun any
more, and what is committed only shrinks. Whoever waited for a slot then is woken and turned away,
and so is every later submission that nothing else is wrong with.
-/

namespace BoundedWorker

/-- A shutdown closes a worker, and so does the drop of a worker that nobody waits for. -/
def Event.Closes (w : Worker) : Event → Prop
  | .shutdown => w.dropped = false
  | .drop => w.hasCallers = false
  | _ => False

namespace Roll.Ebb

variable {r : Roll} {c : Roll × List Notice}

theorem calls_le (h : r.Ebb c) : r.calls ≤ c.1.calls := by
  cases h with
  | stay | turnAway | abandon | finish => exact Nat.le_refl _
  | number | refuse => exact Nat.le_succ _

theorem running_sublist (h : r.Ebb c) : c.1.running.Sublist r.running := by
  cases h with
  | stay | number | refuse | turnAway | abandon => exact List.Sublist.refl _
  | finish => exact List.filter_sublist

theorem waiting_subset (h : r.Ebb c) : c.1.waiting ⊆ r.waiting := by
  cases h with
  | stay | number | refuse | finish => exact List.Subset.refl _
  | turnAway | abandon => exact List.filter_subset_self _

theorem not_launched (h : r.Ebb c) (t : Token) : .launched t ∉ c.2 := by
  cases h <;> simp

theorem not_started (h : r.Ebb c) (t : Token) : .started t ∉ c.2 := by
  cases h <;> simp

theorem waiting_cases (h : r.Ebb c) {t : Ticket} (mem : t ∈ r.waiting) :
    t ∈ c.1.waiting ∨ .answered t.call (.error .shuttingDown) ∈ c.2 ∨ .abandoned t.call ∈ c.2 := by
  cases h with
  | stay | number | refuse | finish => exact .inl mem
  | @turnAway u hu =>
    by_cases he : t.call = u.call
    · exact .inr (.inl (by simp [he]))
    · exact .inl (Ticket.mem_without.2 ⟨mem, he⟩)
  | @abandon u hu =>
    by_cases he : t.call = u.call
    · exact .inr (.inr (by simp [he]))
    · exact .inl (Ticket.mem_without.2 ⟨mem, he⟩)

theorem answered_eq (h : r.Ebb c) {call : Token} (old : call < r.calls) {answer : Answer}
    (mem : .answered call answer ∈ c.2) : answer = .error .shuttingDown := by
  cases h with
  | stay | number => cases mem
  | refuse refusal =>
    obtain ⟨rfl, -⟩ := Notice.answered.inj (List.mem_singleton.1 mem)
    exact absurd old (Nat.lt_irrefl _)
  | turnAway hu => exact (Notice.answered.inj (List.mem_singleton.1 mem)).2
  | abandon hu => simp at mem
  | finish hx elapsed => simp at mem

end Roll.Ebb

namespace Stage.Tells

variable {asked : TaskRequest → Prop} {call : Token} {s : Stage} {notices : List Notice}

theorem of_waiting {r : TaskRequest} (h : (Stage.waiting r).Tells asked call notices) :
    notices = [] := by
  cases h
  rfl

theorem answered_inj (h : s.Tells asked call notices) {a b : Answer}
    (ha : .answered call a ∈ notices) (hb : .answered call b ∈ notices) : a = b := by
  cases h with
  | unborn | waiting | silent => cases ha
  | refused | abandoned => simp_all
  | running started => cases started <;> simp_all [welcome, beginning]
  | ended began => cases began <;> simp_all [welcome, beginning]

end Stage.Tells

namespace Worker

variable {w : Worker}

theorem mem_tales {c : Change} {n : Notice} (mem : n ∈ c.2) (tells : n.tale? = some n) :
    n ∈ (rollView.of c).2 :=
  List.mem_filterMap.2 ⟨n, mem, tells⟩

theorem tales_mem {c : Change} {n : Notice} (mem : n ∈ (rollView.of c).2) : n ∈ c.2 := by
  obtain ⟨m, hm, htale⟩ := List.mem_filterMap.1 mem
  have hsame : n = m := by
    cases m <;> simp_all [rollView, Notice.tale?, Notice.about?]
  exact hsame ▸ hm

theorem step_released (h : w.Stopped) (e : Event) :
    ((w.step e).1.ledger = w.ledger ∧ (w.step e).1.registry = w.registry) ∨
      ∃ r : TaskRequest, (w.step e).1.ledger = (w.ledger.release r.required).1 ∧
        (w.step e).1.registry = (w.registry.remove r.taskId).1 := by
  have haside : ∀ {c : Change}, Aside w c → c.1.ledger = w.ledger ∧ c.1.registry = w.registry :=
    fun {c} ha => ⟨(congrArg Worker.ledger ha.core :), (congrArg Worker.registry ha.core :)⟩
  have hclosing := step_closing h e
  generalize w.step e = change at hclosing ⊢
  cases hclosing with
  | idle | respond | refuse | drop => exact .inl ⟨rfl, rfl⟩
  | @closeOut call now v found =>
    obtain ⟨freeSlots, waiters, hleave⟩ := w.leave_fst v v.request
    rw [Change.next_fst, hleave]
    exact .inr ⟨v.request, rfl, rfl⟩
  | @abandon call v found =>
    obtain ⟨freeSlots, waiters, hleave⟩ := w.leave_fst v v.request
    rw [Change.next_fst, hleave]
    exact .inr ⟨v.request, rfl, rfl⟩
  | @finish t body expired x elapsed found =>
    obtain ⟨freeSlots, waiters, hfinish⟩ := w.finish_fst x (.failed .cancelled) elapsed
    rw [hfinish]
    exact .inr ⟨x.request, rfl, rfl⟩
  | reportEnded t delivered => exact .inl (haside (w.reportEnded_aside t delivered))
  | shutdown =>
    obtain ⟨drains, hdrain⟩ := w.numbered.advanceDrain_fst ⟨w.calls, 0, .executions, false⟩
    rw [hdrain]
    exact .inl ⟨rfl, rfl⟩
  | @resumeDrain call d found woken =>
    obtain ⟨drains, hdrain⟩ := advanceDrain_fst { w with
      drains := w.drains.filter fun u => u.call ≠ call } d
    rw [hdrain]
    exact .inl ⟨rfl, rfl⟩

/-- What a worker does not gain any more once it is closed. -/
structure Shrinks (w w' : Worker) : Prop where
  running : w'.running.Sublist w.running
  known : ∀ id handle, w'.registry.running.get? id = some handle →
    w.registry.running.get? id = some handle
  committed : ∀ kind, w'.ledger.committed kind ≤ w.ledger.committed kind

theorem Shrinks.of_eq {w' : Worker} (running : w'.running = w.running)
    (ledger : w'.ledger = w.ledger) (registry : w'.registry = w.registry) : w.Shrinks w' :=
  ⟨running ▸ List.Sublist.refl _, fun _ _ h => registry ▸ h, fun _ => ledger ▸ Nat.le_refl _⟩

theorem Shrinks.trans {w' w'' : Worker} (h : w.Shrinks w') (h' : w'.Shrinks w'') :
    w.Shrinks w'' :=
  ⟨h'.running.trans h.running, fun id handle hget => h.known id handle (h'.known id handle hget),
    fun kind => (h'.committed kind).trans (h.committed kind)⟩

theorem step_shrinks (h : w.Stopped) (e : Event) : w.Shrinks (w.step e).1 := by
  have hrunning : (w.step e).1.running.Sublist w.running := (step_ebb h e).running_sublist
  rcases step_released h e with ⟨hledger, hregistry⟩ | ⟨r, hledger, hregistry⟩
  · have hkept : w.Shrinks { w with ledger := (w.step e).1.ledger } :=
      .of_eq rfl hledger rfl
    exact ⟨hrunning, fun id handle hget => hregistry ▸ hget, hkept.committed⟩
  · refine ⟨hrunning, fun id handle hget => ?_, fun kind => ?_⟩
    · rw [hregistry, Registry.get?_running_remove] at hget
      split at hget
      · cases hget
      · exact hget
    · rw [hledger, Ledger.committed_release]
      exact Nat.sub_le _ _

theorem run_shrinks (h : w.Stopped) (events : List Event) : w.Shrinks (w.run events).1 :=
  run_induction (P := fun _ c => w.Shrinks c.1) (.of_eq rfl rfl rfl)
    (fun earlier e ih => ih.trans (step_shrinks (run_stopped h earlier) e)) events

theorem run_not_begun (h : w.Stopped) (events : List Event) (t : Token) :
    .launched t ∉ (w.run events).2 ∧ .started t ∉ (w.run events).2 := by
  refine run_induction (P := fun _ c => .launched t ∉ c.2 ∧ .started t ∉ c.2)
    ⟨List.not_mem_nil, List.not_mem_nil⟩ (fun earlier e ih => ?_) events
  have hebb := step_ebb (run_stopped h earlier) e
  refine ⟨fun mem => ?_, fun mem => ?_⟩
  · exact (List.mem_append.1 mem).elim ih.1 fun hstep =>
      hebb.not_launched t (mem_tales hstep rfl)
  · exact (List.mem_append.1 mem).elim ih.2 fun hstep =>
      hebb.not_started t (mem_tales hstep rfl)

theorem resume_turned_away (h : w.Stopped) {t : Ticket} (mem : t ∈ w.roll.waiting) (now : Nat) :
    .answered t.call (.error .shuttingDown) ∈ (w.step (.resume t.call now)).2 := by
  obtain ⟨v, hv, rfl⟩ := List.mem_map.1 mem
  have hsome : (w.waiter? v.call).isSome := by
    rw [waiter?, List.find?_isSome]
    exact ⟨v, hv, decide_eq_true rfl⟩
  obtain ⟨u, found⟩ := Option.isSome_iff_exists.1 hsome
  have hcall : v.ticket.call = v.call := rfl
  simp only [step, Worker.resume, hcall, found, h.closed, if_true, Change.next_snd]
  exact List.mem_append_right _ (List.mem_singleton_self _)

theorem run_turned_away (h : w.Stopped) {t : Ticket} (mem : t ∈ w.roll.waiting)
    {events : List Event} {now : Nat} (turn : .resume t.call now ∈ events) :
    .answered t.call (.error .shuttingDown) ∈ (w.run events).2 ∨
      .abandoned t.call ∈ (w.run events).2 := by
  induction events generalizing w with
  | nil => cases turn
  | cons e rest ih =>
    simp only [run, Change.next_snd, List.mem_append]
    by_cases he : e = .resume t.call now
    · subst he
      exact .inl (.inl (resume_turned_away h mem now))
    · have hturn : .resume t.call now ∈ rest :=
        (List.mem_cons.1 turn).resolve_left fun h => he h.symm
      rcases (step_ebb h e).waiting_cases mem with hmem | hanswered | habandoned
      · rcases ih (step_stopped h e) hmem hturn with hlater | hlater
        · exact .inl (.inr hlater)
        · exact .inr (.inr hlater)
      · exact .inl (.inl (tales_mem hanswered))
      · exact .inr (.inl (tales_mem habandoned))

theorem run_waiting_cases (h : w.Stopped) {t : Ticket} (mem : t ∈ w.roll.waiting)
    (events : List Event) : t ∈ (w.run events).1.roll.waiting ∨
      .answered t.call (.error .shuttingDown) ∈ (w.run events).2 ∨
        .abandoned t.call ∈ (w.run events).2 := by
  refine run_induction (P := fun _ c => t ∈ c.1.roll.waiting ∨
    .answered t.call (.error .shuttingDown) ∈ c.2 ∨ .abandoned t.call ∈ c.2) (.inl mem)
    (fun earlier e ih => ?_) events
  rw [Change.next_fst, Change.next_snd, List.mem_append, List.mem_append]
  rcases ih with hmem | hanswered | habandoned
  · rcases (step_ebb (run_stopped h earlier) e).waiting_cases hmem with
      hmem | hanswered | habandoned
    · exact .inl hmem
    · exact .inr (.inl (.inr (tales_mem hanswered)))
    · exact .inr (.inr (.inr (tales_mem habandoned)))
  · exact .inr (.inl (.inl hanswered))
  · exact .inr (.inr (.inl habandoned))

theorem run_answered_eq (h : w.Stopped) (events : List Event) {call : Token}
    (old : call < w.calls) {answer : Answer} (mem : .answered call answer ∈ (w.run events).2) :
    answer = .error .shuttingDown := by
  revert mem
  suffices hrun : call < (w.run events).1.calls ∧
      (.answered call answer ∈ (w.run events).2 → answer = .error .shuttingDown) from hrun.2
  refine run_induction (P := fun _ c => call < c.1.calls ∧
    (.answered call answer ∈ c.2 → answer = .error .shuttingDown))
    ⟨old, fun mem => by cases mem⟩ (fun earlier e ih => ?_) events
  have hebb := step_ebb (run_stopped h earlier) e
  refine ⟨Nat.lt_of_lt_of_le ih.1 hebb.calls_le, fun mem => ?_⟩
  exact (List.mem_append.1 mem).elim ih.2 fun hstep =>
    hebb.answered_eq ih.1 (mem_tales hstep rfl)

/-- The closure itself changes neither the books nor who waits and who runs. -/
structure Closure (w : Worker) (c : Change) : Prop where
  stopped : c.1.Stopped
  silent : (rollView.of c).2 = []
  waiting : c.1.roll.waiting = w.roll.waiting
  shrinks : w.Shrinks c.1
  calls_le : w.calls ≤ c.1.calls

theorem step_closure (hs : w.Switched) {e : Event} (h : e.Closes w) :
    w.Closure (w.step e) := by
  cases e with
  | shutdown =>
    have hroll := w.shutdown_roll
    have hbooks : w.shutdown.1.books = w.books.number := congrArg Prod.fst w.shutdown_books
    rw [step_shutdown h]
    refine ⟨w.shutdown_stopped, congrArg Prod.snd hroll, congrArg (fun c => c.1.waiting) hroll,
      .of_eq (congrArg (fun c => c.1.running) hroll :) (congrArg Books.ledger hbooks :)
        (congrArg Books.registry hbooks :), ?_⟩
    have hcalls : w.shutdown.1.calls = w.calls + 1 := congrArg Books.calls hbooks
    omega
  | drop =>
    have hroll := rollView.drop_eq stop_roll w
    have hbooks : w.drop.1.books = w.books := congrArg Prod.fst (bookView.drop_eq stop_books w)
    refine ⟨hs.drop_stopped h, congrArg Prod.snd hroll, congrArg (fun c => c.1.waiting) hroll,
      .of_eq (congrArg (fun c => c.1.running) hroll :) (congrArg Books.ledger hbooks :)
        (congrArg Books.registry hbooks :), ?_⟩
    have hcalls : w.drop.1.calls = w.calls := congrArg Books.calls hbooks
    exact Nat.le_of_eq hcalls.symm
  | _ => cases h

theorem closes_of_closed (isOpen : w.slotsClosed = false) {e : Event}
    (closed : (w.step e).1.slotsClosed = true) : e.Closes w := by
  have hclosed : (w.step e).1.slotsClosed ≠ w.slotsClosed := by simp [isOpen, closed]
  have hother : e.maySwitch ≠ false := fun keeps =>
    hclosed (congrArg Switches.slotsClosed (step_switches keeps))
  cases e with
  | shutdown =>
    cases hdropped : w.dropped with
    | false => exact hdropped
    | true => exact absurd (by simp [step, hdropped]) hclosed
  | drop =>
    cases hcallers : w.hasCallers with
    | false => exact hcallers
    | true => exact absurd (by rw [step, drop_of_callers hcallers]) hclosed
  | resumeDrain call =>
    exact absurd (congrArg slotsClosed (w.resumeDrain_aside call).core :) hclosed
  | _ => exact absurd rfl hother

theorem step_closes_woken (isOpen : w.slotsClosed = false) {e : Event} (h : e.Closes w)
    {v : Waiter} (hv : v ∈ w.waiters) (hgranted : v.granted = false) :
    .woken v.call ∈ (w.step e).2 := by
  cases e with
  | shutdown =>
    have hstop : ∀ w : Worker, w.slotsClosed = false → v ∈ w.waiters →
        .woken v.call ∈ w.stop.2 := by
      intro w isOpen hv
      rw [stop, if_neg (by simp [isOpen])]
      exact List.mem_append_left _
        (List.mem_map_of_mem (List.mem_filter.2 ⟨hv, by simp [hgranted]⟩))
    rw [step_shutdown h, shutdown, Change.next_snd]
    exact List.mem_append_left _ (hstop _ isOpen hv)
  | drop =>
    have hnone : w.hasCallers = false := h
    cases hwaiters : w.waiters with
    | nil => simp [hwaiters] at hv
    | cons u rest => simp [hasCallers, hwaiters] at hnone
  | _ => cases h

theorem run_woken {meter : Meter} {config : Config} (h : start meter config = .ok w)
    (events : List Event) : (w.run events).1.slotsClosed = true →
      ∀ t ∈ (w.run events).1.roll.waiting, .woken t.call ∈ (w.run events).2 := by
  refine run_induction (P := fun _ c => c.1.slotsClosed = true → ∀ t ∈ c.1.roll.waiting,
    .woken t.call ∈ c.2) (fun _ t ht => ?_) (fun earlier e ih closed t ht => ?_) events
  · simp [start_roll h] at ht
  · rw [Change.next_fst] at closed ht
    have hs := run_switched (start_switched h) earlier
    cases hclosed : (w.run earlier).1.slotsClosed with
    | true =>
      have hstopped := hs.stopped_of_closed hclosed
      exact List.mem_append_left _ (ih hclosed t ((step_ebb hstopped e).waiting_subset ht))
    | false =>
      have hcloses := closes_of_closed hclosed closed
      rw [(step_closure hs hcloses).waiting] at ht
      obtain ⟨v, hv, rfl⟩ := List.mem_map.1 ht
      cases hgranted : v.granted with
      | true =>
        have hkept := run_kept (start_sound h) (start_kept h) earlier
        exact List.mem_append_left _ (mem_woken.1 ((hkept.told hclosed v hv).1 hgranted))
      | false => exact List.mem_append_right _ (step_closes_woken hclosed hcloses hv hgranted)

theorem submit_refused (h : w.Stopped) {r : TaskRequest} {now : Nat} (valid : r.validate = .ok ())
    (timely : (r.deadline.any fun d => d.val < now) = false) :
    w.submit r now = w.opened.reject w.calls .shuttingDown := by
  have hdecide : w.opened.decide r now = .error .shuttingDown := by
    have hrefuses : w.opened.accepting = false := h.refuses
    simp [decide, valid, timely, hrefuses]
  rw [submit, hdecide]

/-- Whatever a call is answered in a run, it is that the worker is shutting down, and nothing is
reported for it. -/
structure Refused (w : Worker) (events : List Event) (call : Token) : Prop where
  answer : ∀ answer, .answered call answer ∈ (w.run events).2 → answer = .error .shuttingDown
  silent : results call (w.run events).2 = []

theorem refused_of_answered {meter : Meter} {config : Config} (h : start meter config = .ok w)
    {events : List Event} {call : Token}
    (mem : .answered call (.error .shuttingDown) ∈ (w.run events).2) : w.Refused events call := by
  have htells := run_tells h events call
  have hmem := mem_story.2 ⟨mem, rfl⟩
  refine ⟨fun answer hanswer => ?_, ?_⟩
  · exact htells.answered_inj (mem_story.2 ⟨hanswer, rfl⟩) hmem
  · rw [← results_story]
    exact (htells.of_gone (.inl ⟨_, hmem⟩)).1

theorem waiting_silent {meter : Meter} {config : Config} (h : start meter config = .ok w)
    {events : List Event} {t : Ticket} (mem : t ∈ (w.run events).1.roll.waiting) :
    story t.call (w.run events).2 = [] := by
  have htells := run_tells h events t.call
  rw [Roll.stage_waiting (roll_distinct (run_sound (start_sound h) events).1) mem] at htells
  exact htells.of_waiting

theorem run_closed {meter : Meter} {config : Config} (h : start meter config = .ok w)
    {earlier : List Event} {e : Event} (closes : e.Closes (w.run earlier).1) :
    (w.run earlier).1.Closure ((w.run earlier).1.step e) :=
  step_closure (run_switched (start_switched h) earlier) closes

theorem refused_of_waiting {meter : Meter} {config : Config} (h : start meter config = .ok w)
    {earlier : List Event} {e : Event} (closes : e.Closes (w.run earlier).1) (later : List Event)
    {t : Ticket} (mem : t ∈ (w.run earlier).1.roll.waiting) :
    w.Refused (earlier ++ e :: later) t.call := by
  have hclosure := run_closed h closes
  have hnow : t ∈ ((w.run earlier).1.step e).1.roll.waiting := hclosure.waiting ▸ mem
  have hrun : w.run (earlier ++ e :: later) =
      (w.run earlier).next fun u => (u.step e).next fun u => u.run later := w.run_append _ _
  refine ⟨fun answer hanswer => ?_, ?_⟩
  -- nobody has answered it before, the closing step answers nobody, and later there is one answer
  · rw [hrun, Change.next_snd, Change.next_snd, List.mem_append, List.mem_append] at hanswer
    rcases hanswer with hbefore | hstep | hlater
    · have hmem := mem_story.2 ⟨hbefore, rfl⟩
      rw [waiting_silent h mem] at hmem
      cases hmem
    · have hmem := mem_tales hstep rfl
      rw [hclosure.silent] at hmem
      cases hmem
    · refine run_answered_eq hclosure.stopped later ?_ hlater
      have hold := (roll_distinct (run_sound (start_sound h) earlier).1).waiting_lt t mem
      exact Nat.lt_of_lt_of_le hold hclosure.calls_le
  · rw [← results_story]
    rcases run_waiting_cases hclosure.stopped hnow later with hwaits | hanswered | habandoned
    · have hend : t ∈ (w.run (earlier ++ e :: later)).1.roll.waiting := hrun ▸ hwaits
      rw [waiting_silent h hend]
      rfl
    · have hmem : .answered t.call (.error .shuttingDown) ∈ (w.run (earlier ++ e :: later)).2 :=
        hrun ▸ List.mem_append_right _ (List.mem_append_right _ hanswered)
      exact ((run_tells h _ t.call).of_gone (.inl ⟨_, mem_story.2 ⟨hmem, rfl⟩⟩)).1
    · have hmem : .abandoned t.call ∈ (w.run (earlier ++ e :: later)).2 :=
        hrun ▸ List.mem_append_right _ (List.mem_append_right _ habandoned)
      exact ((run_tells h _ t.call).of_gone (.inr (mem_story.2 ⟨hmem, rfl⟩))).1

/-- From the step that closes a worker on, it accepts nothing, and neither its load nor the tasks
that run grow. Whoever waited for a slot has been woken, and once it has had a turn, it has been
turned away or has given up; and so is every later submission turned away in its own step that is
valid and has not expired. None of them is ever reported. -/
theorem run_final {meter : Meter} {config : Config} (h : start meter config = .ok w)
    (earlier : List Event) {e : Event} (closes : e.Closes (w.run earlier).1)
    (later : List Event) :
    (w.run (earlier ++ e :: later)).1.accepting = false ∧
    (∀ t, .launched t ∉ ((w.run earlier).1.run (e :: later)).2 ∧
      .started t ∉ ((w.run earlier).1.run (e :: later)).2) ∧
    (w.run earlier).1.Shrinks (w.run (earlier ++ e :: later)).1 ∧
    (∀ more, (w.run (earlier ++ e :: later)).1.Shrinks
      (w.run (earlier ++ e :: later ++ more)).1) ∧
    (∀ v ∈ (w.run earlier).1.waiters, w.Refused (earlier ++ e :: later) v.call ∧
      .woken v.call ∈ (w.run (earlier ++ [e])).2 ∧
      ∀ now, .resume v.call now ∈ later →
        .answered v.call (.error .shuttingDown) ∈ (w.run (earlier ++ e :: later)).2 ∨
          .abandoned v.call ∈ (w.run (earlier ++ e :: later)).2) ∧
    ∀ mid q rest r now, later = mid ++ q :: rest → q.request? = some (r, now) →
      r.validate = .ok () → (r.deadline.any fun d => d.val < now) = false →
        (w.run (earlier ++ e :: mid)).1.dropped = false →
          .answered (w.run (earlier ++ e :: mid)).1.calls (.error .shuttingDown) ∈
              ((w.run (earlier ++ e :: mid)).1.step q).2 ∧
            w.Refused (earlier ++ e :: later) (w.run (earlier ++ e :: mid)).1.calls := by
  have hclosure := run_closed h closes
  have hrun : ∀ later, w.run (earlier ++ e :: later) =
      (w.run earlier).next fun u => (u.step e).next fun u => u.run later :=
    fun later => w.run_append _ _
  have hstopped : ∀ later, (w.run (earlier ++ e :: later)).1.Stopped := fun later => by
    rw [hrun]
    exact run_stopped hclosure.stopped later
  refine ⟨(hstopped later).refuses, fun t => ?_, ?_, fun more => ?_, fun v hv => ?_, ?_⟩
  · have hafter := run_not_begun hclosure.stopped later t
    rw [run, Change.next_snd]
    refine ⟨fun mem => ?_, fun mem => ?_⟩
    · rcases List.mem_append.1 mem with hstep | hlater
      · simpa [hclosure.silent] using mem_tales hstep rfl
      · exact hafter.1 hlater
    · rcases List.mem_append.1 mem with hstep | hlater
      · simpa [hclosure.silent] using mem_tales hstep rfl
      · exact hafter.2 hlater
  · rw [hrun]
    exact hclosure.shrinks.trans (run_shrinks hclosure.stopped later)
  · rw [w.run_append (earlier ++ e :: later) more]
    exact run_shrinks (hstopped later) more
  · have hmem : v.ticket ∈ (w.run earlier).1.roll.waiting := List.mem_map_of_mem hv
    refine ⟨refused_of_waiting h closes later hmem, ?_, fun now turn => ?_⟩
    · have hnow := hclosure.waiting ▸ hmem
      have hwoken := run_woken h (earlier ++ [e])
      rw [run_snoc] at hwoken ⊢
      exact hwoken hclosure.stopped.closed v.ticket hnow
    · rw [hrun]
      have hnow : v.ticket ∈ ((w.run earlier).1.step e).1.roll.waiting := hclosure.waiting ▸ hmem
      rcases run_turned_away hclosure.stopped hnow turn with hanswered | habandoned
      · exact .inl (List.mem_append_right _ (List.mem_append_right _ hanswered))
      · exact .inr (List.mem_append_right _ (List.mem_append_right _ habandoned))
  · rintro mid q rest r now rfl asked valid timely hdropped
    have hstep : .answered (w.run (earlier ++ e :: mid)).1.calls (.error .shuttingDown) ∈
        ((w.run (earlier ++ e :: mid)).1.step q).2 := by
      rw [step_request hdropped asked, submit_refused (hstopped mid) valid timely]
      exact List.mem_singleton_self _
    refine ⟨hstep, refused_of_answered h ?_⟩
    rw [← List.cons_append, ← List.append_assoc, run_append]
    exact List.mem_append_right _ (List.mem_append_left _ hstep)

theorem run_final_waiting : ∃ config, config =
      { Config.standard "w" with maxConcurrentTasks := 1 } ∧
    ∃ w, start .millionths config = .ok w ∧ ∃ c d,
      c = w.run [.submit (.new "a" .null) 0, .submit (.new "b" .null) 0] ∧
      d = w.run [.submit (.new "a" .null) 0, .submit (.new "b" .null) 0, .shutdown,
        .submit (.new "c" .null) 0, .resume 1 0] ∧
      c.1.Shrinks d.1 ∧ .answered 3 (.error .shuttingDown) ∈ d.2 ∧
      (.answered 1 (.error .shuttingDown) ∈ d.2 ∨ .abandoned 1 ∈ d.2) ∧
      results 1 d.2 = [] ∧ results 3 d.2 = [] := by
  refine ⟨_, rfl, _, rfl, _, _, rfl, rfl, ?_⟩
  obtain ⟨-, -, hshrinks, -, hwaiting, hlater⟩ := run_final (show start .millionths
    { Config.standard "w" with maxConcurrentTasks := 1 } = .ok _ from rfl)
    [.submit (.new "a" .null) 0, .submit (.new "b" .null) 0] (e := .shutdown)
    (show _ = false from rfl) [.submit (.new "c" .null) 0, .resume 1 0]
  obtain ⟨hrefused, -, hturned⟩ := hwaiting ⟨1, .new "b" .null, false⟩ (List.mem_singleton_self _)
  obtain ⟨hanswered, hsilent⟩ := hlater [] _ [.resume 1 0] _ 0 rfl rfl rfl rfl rfl
  refine ⟨hshrinks, ?_, hturned 0 ?_, hrefused.silent, hsilent.silent⟩
  · exact List.mem_append_right _ (List.mem_append_right _ (List.mem_append_right _
      (List.mem_append_left _ hanswered)))
  · exact List.mem_cons_of_mem _ List.mem_cons_self

end Worker

end BoundedWorker
