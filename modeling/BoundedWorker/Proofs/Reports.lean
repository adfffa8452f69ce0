import BoundedWorker.Proofs.Slots
import BoundedWorker.Proofs.Stories

/-!
Reports. Every submission that is answered with success leads to one result, which is handed to the
reporter when the execution ends, and no other submission leads to any. When a result is handed
over, the execution has given back everything, and nothing that the reporter does changes that.
-/

namespace BoundedWorker

def Notice.resultOf? (call : Token) : Notice → Option TaskResult
  | .reported other result => if other = call then some result else none
  | _ => none

def results (call : Token) (notices : List Notice) : List TaskResult :=
  notices.filterMap (Notice.resultOf? call)

theorem mem_results {call : Token} {notices : List Notice} {result : TaskResult} :
    result ∈ results call notices ↔ .reported call result ∈ notices := by
  rw [results, List.mem_filterMap]
  constructor
  · rintro ⟨n, hn, hresult⟩
    cases n <;> simp_all [Notice.resultOf?]
  · exact fun h => ⟨_, h, if_pos rfl⟩

@[simp] theorem results_append (call : Token) (earlier later : List Notice) :
    results call (earlier ++ later) = results call earlier ++ results call later :=
  List.filterMap_append ..

@[simp] theorem results_reported (call : Token) (result : TaskResult) :
    results call [.reported call result] = [result] := by
  simp [results, Notice.resultOf?]

theorem Notice.about?_of_resultOf? {call : Token} {n : Notice} {result : TaskResult}
    (h : n.resultOf? call = some result) : n.about? = some call := by
  cases n <;> simp_all [Notice.resultOf?, Notice.about?]

theorem results_story (call : Token) (notices : List Notice) :
    results call (story call notices) = results call notices := by
  rw [results, story, List.filterMap_filter]
  refine List.filterMap_congr fun n _ => ?_
  cases hresult : n.resultOf? call with
  | none => simp
  | some result => simp [Notice.about?_of_resultOf? hresult]

namespace Outcome

def failure? : Outcome → Option Failure
  | completed _ => none
  | failed failure => some failure

theorem toResult_success (o : Outcome) (taskId : String) (elapsed : Duration) :
    (o.toResult taskId elapsed).success = o.failure?.isNone := by
  cases o <;> rfl

theorem durationMetric_ne_errorMetric : TaskResult.durationMetric ≠ TaskResult.errorMetric := by
  decide

theorem toResult_error? {o : Outcome} {failure : Failure} (h : o.failure? = some failure)
    (taskId : String) (elapsed : Duration) :
    (o.toResult taskId elapsed).error? = some failure.message := by
  cases o with
  | completed metrics => cases h
  | failed f =>
    obtain rfl := Option.some.inj h
    simp [toResult, TaskResult.error?, TaskResult.withMetric, TaskResult.failed,
      Table.get?_insert, durationMetric_ne_errorMetric, Metric.text?]

end Outcome

namespace Stage

variable {asked : TaskRequest → Prop} {call : Token} {s : Stage} {notices : List Notice}

@[simp] theorem results_welcome (r : TaskRequest) : results call (welcome call r) = [] := rfl

@[simp] theorem results_beginning (begins : Bool) : results call (beginning call begins) = [] := by
  cases begins <;> rfl

theorem ok_mem_told {begins : Bool} {r : TaskRequest} {id : String} (more : List Notice)
    (hmore : .answered call (.ok id) ∉ more)
    (ok : .answered call (.ok id) ∈ welcome call r ++ beginning call begins ++ more) :
    r.taskId = id := by
  cases begins <;> simp_all [welcome, beginning]

theorem Tells.results_le_one (h : s.Tells asked call notices) :
    (results call notices).length ≤ 1 := by
  cases h with
  | unborn | waiting | silent | refused | abandoned => exact Nat.zero_le 1
  | running | ended => simp

theorem Tells.of_ok (h : s.Tells asked call notices) {id : String}
    (ok : .answered call (.ok id) ∈ notices) :
    (∃ r, asked r ∧ r.taskId = id) ∧
      ((∃ r started, s = .running r started) ∧ results call notices = [] ∨
        s = .over ∧ ∃ result, results call notices = [result] ∧ result.taskId = id) := by
  cases h with
  | unborn | waiting | silent => cases ok
  | refused refusal => simp at ok
  | abandoned => simp at ok
  | @running r started asked =>
    have hid : r.taskId = id := ok_mem_told [] (by simp) (by simpa using ok)
    exact ⟨⟨r, asked, hid⟩, .inl ⟨⟨r, started, rfl⟩, by simp⟩⟩
  | @ended r began result asked own =>
    have hid : r.taskId = id := ok_mem_told _ (by simp) ok
    exact ⟨⟨r, asked, hid⟩, .inr ⟨rfl, result, by simp, own.trans hid⟩⟩

theorem Tells.of_gone (h : s.Tells asked call notices)
    (gone : (∃ refusal, .answered call (.error refusal) ∈ notices) ∨ .abandoned call ∈ notices) :
    results call notices = [] ∧ .started call ∉ notices := by
  cases h with
  | unborn | waiting | silent => simp at gone
  | refused refusal => exact ⟨rfl, by simp⟩
  | abandoned => exact ⟨rfl, by simp⟩
  | running started => cases started <;> simp [welcome, beginning] at gone
  | ended began => cases began <;> simp [welcome, beginning] at gone

end Stage

theorem Slots.back_released (s : Slots) :
    s.back.1.free + s.back.1.waiters.countP (·.granted) =
      s.free + s.waiters.countP (·.granted) + 1 := by
  rcases s.back_cases with ⟨hback, -⟩ | ⟨before, v, after, hw, hv, hback⟩
  · rw [hback]
    exact Nat.add_right_comm ..
  · simp only [hback, hw, List.countP_append, List.countP_cons, hv]
    simp only [Bool.false_eq_true, if_false, if_true]
    omega

theorem Roll.Turn.exists_turn {e : Event} {r : Roll} {c : Roll × List Notice} (h : r.Turn e c)
    {call : Token} {result : TaskResult} (mem : .reported call result ∈ c.2) :
    ∃ x ∈ r.running, x.token = call ∧
      ∃ body expired elapsed, e = .turn call body expired elapsed := by
  cases h with
  | stay | number | wait => cases mem
  | refuse | turnAway | abandon | launch | resume => simp [Stage.welcome] at mem
  | @carryOn x => cases hx : x.started <;> simp [hx, Stage.beginning] at mem
  | @finish x body expired elapsed its hx ran =>
    rcases List.mem_append.1 mem with hmem | hmem
    · rw [Stage.beginning] at hmem
      split at hmem <;> simp at hmem
    · obtain ⟨rfl, -⟩ := Notice.reported.inj (List.mem_singleton.1 hmem)
      exact ⟨x, hx, rfl, body, expired, elapsed, its⟩

namespace Worker

/-- In a step of a worker an execution has its outcome, and `w'` is the state in which its result is
handed to the reporter. -/
structure Delivers (w : Worker) (e : Event) (x : Execution) (result : TaskResult) (w' : Worker) :
    Prop where
  found : w.execution? x.token = some x
  decided : ∃ body expired elapsed o, e = .turn x.token body expired elapsed ∧
    ((w.moment x.token body expired).verdict w.config.timeout).outcome = some o ∧
      result = o.toResult x.request.taskId elapsed ∧ result.success = o.failure?.isNone ∧
        ∀ failure, o.failure? = some failure → result.error? = some failure.message
  /-- After the result is handed over, nothing else happens in the step. -/
  last : ∃ before, w.step e = (w'.delivering x.token, before ++ [.reported x.token result])
  resources : ∀ kind, w'.ledger.committed kind + x.ticket.units w.ledger.meter kind =
    w.ledger.committed kind
  entry : ∀ id, w'.registry.entryOf id =
    if x.request.taskId = id then none else w.registry.entryOf id
  slot : w'.freeSlots + w'.waiters.countP (·.granted) =
    w.freeSlots + w.waiters.countP (·.granted) + 1
  gone : ∀ t ∈ w'.tickets, t.call ≠ x.token

variable {w : Worker}

theorem turn_delivers (hb : w.books.Sound) {x : Execution} (found : w.execution? x.token = some x)
    {body : BodyTurn} {expired : Bool} (elapsed : Duration) {o : Outcome}
    (decided : ((w.moment x.token body expired).verdict w.config.timeout).outcome = some o) :
    ∃ w', w.Delivers (.turn x.token body expired elapsed) x
      (o.toResult x.request.taskId elapsed) w' := by
  have hmem : x.ticket ∈ w.books.running := (execution?_mem found).1
  have hticket := Books.Sound.running_mem hmem
  let w₁ := w.cancelledIf (w.cancels (w.moment x.token body expired)) x.token
  let c := (w₁.ended x.token o).endTicket x.request true
  have hbooks₁ : w₁.books = w.books := w.cancelledIf_books _ _
  have hbooks : c.1.books = w.books.close x.ticket := by
    rw [← hbooks₁]
    exact congrArg Prod.fst (finish_books (hbooks₁ ▸ hb) (hbooks₁ ▸ hmem) o elapsed)
  have hslots : c.1.slots = (w.slots.ended x.token).back.1 := by
    have hend := (w₁.ended x.token o).endTicket_slots x.request true
    rw [if_pos rfl, ended_slots, w.cancelledIf_slots] at hend
    exact congrArg Prod.fst hend
  refine ⟨c.1, found, ⟨body, expired, elapsed, o, rfl, decided, rfl, o.toResult_success _ _,
    fun failure hf => Outcome.toResult_error? hf _ _⟩, ?_, ?_, ?_, ?_, ?_⟩
  · refine ⟨beginning x ((w.moment x.token body expired).verdict w.config.timeout) ++ c.2, ?_⟩
    simp only [step, turn, found, decided, Change.next, finish, List.append_assoc]
    rfl
  · intro kind
    rw [show c.1.ledger = (w.books.close x.ticket).ledger from congrArg Books.ledger hbooks]
    exact hb.close_committed hticket kind
  · intro id
    rw [show c.1.registry = (w.books.close x.ticket).registry from congrArg Books.registry hbooks]
    exact hb.close_entryOf hticket id
  · have hback := (w.slots.ended x.token).back_released
    rw [← hslots] at hback
    exact hback
  · intro t ht
    exact (hb.close_not_mem hticket (hbooks ▸ ht : t ∈ (w.books.close x.ticket).tickets)).2

theorem reported_not_mem_beginning (call : Token) (result : TaskResult) (x : Execution)
    (v : Verdict) : .reported call result ∉ beginning x v := by
  rw [beginning]
  split <;> simp

theorem step_delivers (hb : w.books.Sound) {e : Event} {call : Token} {result : TaskResult}
    (mem : .reported call result ∈ (w.step e).2) :
    ∃ x w', x.token = call ∧ w.Delivers e x result w' := by
  have htale : .reported call result ∈ (rollView.of (w.step e)).2 :=
    List.mem_filterMap.2 ⟨_, mem, rfl⟩
  obtain ⟨x, hx, rfl, body, expired, elapsed, rfl⟩ := (w.step_turn e).exists_turn htale
  have found := execution?_of_mem hb hx
  have hbeginning := reported_not_mem_beginning x.token result x
    ((w.moment x.token body expired).verdict w.config.timeout)
  cases decided : ((w.moment x.token body expired).verdict w.config.timeout).outcome with
  | none =>
    simp only [step, turn, found, decided] at mem
    rcases List.mem_append.1 mem with hmem | hmem
    · exact absurd hmem hbeginning
    · split at hmem <;> simp at hmem
  | some o =>
    obtain ⟨w', hw'⟩ := turn_delivers hb found elapsed decided
    have hend (w₁ : Worker) : (w₁.endTicket x.request true).2.filterMap rollView.hear = [] :=
      congrArg Prod.snd (w₁.endTicket_roll x.request true)
    simp only [step, turn, found, decided, Change.next_snd, finish] at mem
    rcases List.mem_append.1 mem with hmem | hmem
    · exact absurd hmem hbeginning
    rcases List.mem_append.1 hmem with hmem | hmem
    · -- giving back tells nothing about a call
      have hsilent := List.filterMap_eq_nil_iff.1 (hend _) _ hmem
      cases hsilent
    · obtain ⟨-, rfl⟩ := Notice.reported.inj (List.mem_singleton.1 hmem)
      exact ⟨x, w', rfl, hw'⟩

theorem reportEnded_slots_books (w : Worker) (call : Token) (delivered : Bool) :
    (w.step (.reportEnded call delivered)).1.books = w.books ∧
      (w.step (.reportEnded call delivered)).1.slots = w.slots :=
  ⟨congrArg Prod.fst (bookView.aside (w.reportEnded_aside call delivered)),
    congrArg Prod.fst (slotView.aside (w.reportEnded_aside call delivered))⟩

theorem exists_execution_of_stage {call : Token} {r : TaskRequest} {started : Bool}
    (h : w.roll.stage call = .running r started) :
    ∃ x, w.execution? call = some x ∧ x.request = r := by
  rw [Roll.stage] at h
  split at h
  · cases h
  · split at h
    · exact ⟨_, ‹_›, (Stage.running.inj h).1⟩
    · split at h <;> cases h

theorem execution?_of_stage_running {call : Token} {r : TaskRequest} {started : Bool}
    (h : w.roll.stage call = .running r started) : (w.execution? call).isSome := by
  obtain ⟨x, found, -⟩ := exists_execution_of_stage h
  exact Option.isSome_iff_exists.2 ⟨x, found⟩

theorem execution?_of_stage_over {call : Token} (h : w.roll.stage call = .over) :
    w.execution? call = none := by
  rw [Roll.stage] at h
  split at h
  · cases h
  · split at h
    · cases h
    · assumption

/-- Whoever is answered with success is reported once, under the identifier that was asked for, when
the execution has ended and has given back everything of its own; nobody else is ever reported. What
becomes of a report changes nothing about what was given back. -/
theorem run_reports {meter : Meter} {config : Config} (h : start meter config = .ok w)
    (events : List Event) :
    (∀ call, (results call (w.run events).2).length ≤ 1) ∧
    (∀ call id, .answered call (.ok id) ∈ (w.run events).2 →
      (∃ r, w.Asked events call r ∧ r.taskId = id) ∧
        (((w.run events).1.execution? call).isSome ∧ results call (w.run events).2 = [] ∨
          (w.run events).1.execution? call = none ∧
            ∃ result, results call (w.run events).2 = [result] ∧ result.taskId = id)) ∧
    (∀ call, (∃ refusal, .answered call (.error refusal) ∈ (w.run events).2) ∨
        .abandoned call ∈ (w.run events).2 →
      results call (w.run events).2 = [] ∧ .started call ∉ (w.run events).2) ∧
    (∀ call result, .reported call result ∈ (w.run events).2 →
      ∃ earlier e later x w', events = earlier ++ e :: later ∧ x.token = call ∧
        (w.run earlier).1.Delivers e x result w') ∧
    ∀ call delivered,
      ((w.run events).1.step (.reportEnded call delivered)).1.books = (w.run events).1.books ∧
        ((w.run events).1.step (.reportEnded call delivered)).1.slots = (w.run events).1.slots := by
  have htells := run_tells h events
  refine ⟨fun call => ?_, fun call id ok => ?_, fun call gone => ?_, fun call result mem => ?_, ?_⟩
  · rw [← results_story]
    exact (htells call).results_le_one
  · have hok := (htells call).of_ok (mem_story.2 ⟨ok, rfl⟩)
    rw [results_story] at hok
    refine hok.imp_right (Or.imp ?_ ?_)
    · rintro ⟨⟨r, started, hstage⟩, hnone⟩
      exact ⟨execution?_of_stage_running hstage, hnone⟩
    · exact fun ⟨hstage, hone⟩ => ⟨execution?_of_stage_over hstage, hone⟩
  · have hgone := (htells call).of_gone (gone.imp
      (fun ⟨refusal, hmem⟩ => ⟨refusal, mem_story.2 ⟨hmem, rfl⟩⟩)
      fun hmem => mem_story.2 ⟨hmem, rfl⟩)
    rw [results_story] at hgone
    exact ⟨hgone.1, fun hmem => hgone.2 (mem_story.2 ⟨hmem, rfl⟩)⟩
  · obtain ⟨earlier, e, later, rfl, hstep⟩ := exists_step_of_mem_run mem
    obtain ⟨x, w', hcall, hdelivers⟩ := step_delivers (run_sound (start_sound h) earlier).1 hstep
    exact ⟨earlier, e, later, x, w', rfl, hcall, hdelivers⟩
  · exact fun call delivered => reportEnded_slots_books _ call delivered

theorem run_reports_failure : ∃ w, start .millionths (.standard "w") = .ok w ∧ ∃ c,
    c = w.run [.submit (.new "a" .null) 0, .submit (.new "a" .null) 0,
      .turn 0 ⟨false, some (.error ["no"])⟩ false .zero, .reportEnded 0 false] ∧
    results 1 c.2 = [] ∧ .started 1 ∉ c.2 ∧
    ∃ result, results 0 c.2 = [result] ∧ result.taskId = "a" ∧
      ∃ w₁ e x w', Delivers w₁ e x result w' := by
  refine ⟨_, rfl, _, rfl, ?_⟩
  obtain ⟨-, hok, hgone, hdelivers, -⟩ := run_reports
    (show start .millionths (.standard "w") = .ok _ from rfl)
    [.submit (.new "a" .null) 0, .submit (.new "a" .null) 0,
      .turn 0 ⟨false, some (.error ["no"])⟩ false .zero, .reportEnded 0 false]
  obtain ⟨hnone, hstarted⟩ := hgone 1 (.inl ⟨.duplicateTask "a",
    List.mem_cons_of_mem _ (List.mem_cons_of_mem _ List.mem_cons_self)⟩)
  obtain ⟨-, ⟨hruns, -⟩ | ⟨-, result, hone, hid⟩⟩ :=
    hok 0 "a" (List.mem_cons_of_mem _ List.mem_cons_self)
  · exact absurd hruns (by decide)
  · obtain ⟨earlier, e, later, x, w', -, -, hdelivers⟩ :=
      hdelivers 0 result (mem_results.1 (hone ▸ List.mem_singleton_self _))
    exact ⟨hnone, hstarted, result, hone, hid, _, e, x, w', hdelivers⟩

end Worker

end BoundedWorker
