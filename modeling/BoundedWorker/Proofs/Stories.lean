import BoundedWorker.Proofs.Accounting

/-!
The story of a call: what is told about it, from its submission to the report of its result. A call
waits, or runs, or is over, and what has been told about it depends on that; `Next` says how a step
takes a call on, and `Tells` what may have been told so far.
-/

namespace BoundedWorker

section Keys

variable {α : Type} {key : α → Token} {as : List α} {k : Token}

theorem find?_key_mem {a : α} (hkeys : (as.map key).Nodup) (ha : a ∈ as) :
    (as.find? fun b => key b = key a) = some a := by
  cases hf : as.find? fun b => key b = key a with
  | none => exact absurd (decide_eq_true rfl) (List.find?_eq_none.1 hf a ha)
  | some b =>
    have hkey : key b = key a := by simpa using List.find?_some hf
    rw [List.inj_on_of_nodup_map hkeys (List.mem_of_find?_eq_some hf) ha hkey]

theorem find?_key_none (h : ∀ a ∈ as, key a ≠ k) : (as.find? fun a => key a = k) = none :=
  List.find?_eq_none.2 fun a ha => by simpa using h a ha

theorem find?_key_filter {other : Token} (h : other ≠ k) :
    ((as.filter fun a => key a ≠ other).find? fun a => key a = k) =
      as.find? fun a => key a = k := by
  rw [List.find?_filter]
  congr 1
  funext a
  by_cases ha : key a = k <;> simp [ha, Ne.symm h]

theorem find?_key_map {f : α → α} (hkey : ∀ a, key (f a) = key a)
    (hsame : ∀ a, key a = k → f a = a) :
    ((as.map f).find? fun a => key a = k) = as.find? fun a => key a = k := by
  rw [List.find?_map]
  simp only [Function.comp_def, hkey]
  cases hf : as.find? fun a => key a = k with
  | none => rfl
  | some a => exact congrArg some (hsame a (by simpa using List.find?_some hf))

end Keys

def Notice.about? : Notice → Option Token
  | .answered call _ | .abandoned call | .launched call | .started call | .reported call _ =>
    some call
  | _ => none

def Notice.tale? (n : Notice) : Option Notice := n.about?.map fun _ => n

def story (call : Token) (notices : List Notice) : List Notice :=
  notices.filter fun n => n.about? = some call

@[simp] theorem story_append (call : Token) (earlier later : List Notice) :
    story call (earlier ++ later) = story call earlier ++ story call later :=
  List.filter_append ..

theorem mem_story {call : Token} {notices : List Notice} {n : Notice} :
    n ∈ story call notices ↔ n ∈ notices ∧ n.about? = some call := by
  simp [story]

theorem story_tales (call : Token) (notices : List Notice) :
    story call (notices.filterMap Notice.tale?) = story call notices := by
  induction notices with
  | nil => rfl
  | cons n rest ih =>
    rw [story, story] at ih ⊢
    cases h : n.about? with
    | none => simp [Notice.tale?, h, ih]
    | some other => simp [Notice.tale?, h, List.filter_cons, ih]

theorem story_eq_nil {call : Token} {notices : List Notice}
    (h : ∀ n ∈ notices, n.about? ≠ some call) : story call notices = [] :=
  List.filter_eq_nil_iff.2 fun n hn => by simpa using h n hn

theorem story_eq_self {call : Token} {notices : List Notice}
    (h : ∀ n ∈ notices, n.about? = some call) : story call notices = notices :=
  List.filter_eq_self.2 fun n hn => decide_eq_true (h n hn)

inductive Stage where
  | unborn
  | waiting (request : TaskRequest)
  | running (request : TaskRequest) (started : Bool)
  | over

namespace Stage

def beginning (call : Token) (begins : Bool) : List Notice := if begins then [.started call] else []

def welcome (call : Token) (r : TaskRequest) : List Notice :=
  [.launched call, .answered call (.ok r.taskId)]

inductive Next (asked : TaskRequest → Prop) (call : Token) :
    Stage → List Notice → Stage → Prop where
  | stay (s : Stage) : Next asked call s [] s
  | number : Next asked call .unborn [] .over
  | refuse (refusal : Refusal) :
      Next asked call .unborn [.answered call (.error refusal)] .over
  | wait {r : TaskRequest} (h : asked r) : Next asked call .unborn [] (.waiting r)
  | launch {r : TaskRequest} (h : asked r) :
      Next asked call .unborn (welcome call r) (.running r false)
  | resume (r : TaskRequest) : Next asked call (.waiting r) (welcome call r) (.running r false)
  | turnAway (r : TaskRequest) (refusal : Refusal) :
      Next asked call (.waiting r) [.answered call (.error refusal)] .over
  | abandon (r : TaskRequest) : Next asked call (.waiting r) [.abandoned call] .over
  | carryOn (r : TaskRequest) (started : Bool) :
      Next asked call (.running r started) (beginning call !started) (.running r true)
  | finish (r : TaskRequest) (started ran : Bool) {result : TaskResult}
      (own : result.taskId = r.taskId) :
      Next asked call (.running r started)
        (beginning call (ran && !started) ++ [.reported call result]) .over

inductive Tells (asked : TaskRequest → Prop) (call : Token) : Stage → List Notice → Prop where
  | unborn : Tells asked call .unborn []
  | waiting {r : TaskRequest} (h : asked r) : Tells asked call (.waiting r) []
  | running {r : TaskRequest} (started : Bool) (h : asked r) :
      Tells asked call (.running r started) (welcome call r ++ beginning call started)
  | silent : Tells asked call .over []
  | refused (refusal : Refusal) : Tells asked call .over [.answered call (.error refusal)]
  | abandoned : Tells asked call .over [.abandoned call]
  | ended {r : TaskRequest} (began : Bool) {result : TaskResult} (h : asked r)
      (own : result.taskId = r.taskId) :
      Tells asked call .over (welcome call r ++ beginning call began ++ [.reported call result])

variable {asked later : TaskRequest → Prop} {call : Token} {s s' : Stage}
  {notices more : List Notice}

theorem Next.mono (h : s.Next asked call notices s') (hle : ∀ r, asked r → later r) :
    s.Next later call notices s' := by
  cases h with
  | stay => exact .stay _
  | number => exact .number
  | refuse refusal => exact .refuse refusal
  | wait h => exact .wait (hle _ h)
  | launch h => exact .launch (hle _ h)
  | resume r => exact .resume r
  | turnAway r refusal => exact .turnAway r refusal
  | abandon r => exact .abandon r
  | carryOn r started => exact .carryOn r started
  | finish r started ran own => exact .finish r started ran own

theorem Tells.mono (h : s.Tells asked call notices) (hle : ∀ r, asked r → later r) :
    s.Tells later call notices := by
  cases h with
  | unborn => exact .unborn
  | waiting h => exact .waiting (hle _ h)
  | running started h => exact .running started (hle _ h)
  | silent => exact .silent
  | refused refusal => exact .refused refusal
  | abandoned => exact .abandoned
  | ended began h own => exact .ended began (hle _ h) own

theorem Next.tells (h : s.Next asked call more s') (htold : s.Tells asked call notices) :
    s'.Tells asked call (notices ++ more) := by
  cases h with
  | stay => simpa using htold
  | number => cases htold; exact .silent
  | refuse refusal => cases htold; exact .refused refusal
  | wait h => cases htold; exact .waiting h
  | launch h => cases htold; exact .running false h
  | resume r =>
    cases htold with
    | waiting h => exact .running false h
  | turnAway r refusal => cases htold; exact .refused refusal
  | abandon r => cases htold; exact .abandoned
  | carryOn r started =>
    cases htold with
    | running _ h => cases started <;> exact .running true h
  | finish r started ran own =>
    cases htold with
    | running _ h =>
      -- the body began before, or begins in this step, or never does
      cases started with
      | true => simpa [beginning] using Tells.ended true h own
      | false =>
        cases ran with
        | true => simpa [beginning] using Tells.ended true h own
        | false => simpa [beginning] using Tells.ended false h own

end Stage

/-- The calls of a worker: how many there were, and which of them wait or run. -/
structure Roll where
  calls : Nat
  waiting : List Ticket
  running : List Execution

namespace Roll

open Stage (welcome beginning)

def stage (r : Roll) (call : Token) : Stage :=
  match r.waiting.find? fun t => t.call = call with
  | some t => .waiting t.request
  | none =>
    match r.running.find? fun x => x.token = call with
    | some x => .running x.request x.started
    | none => if call < r.calls then .over else .unborn

def number (r : Roll) : Roll := { r with calls := r.calls + 1 }

def wait (r : Roll) (q : TaskRequest) : Roll := { r with waiting := r.waiting ++ [⟨r.calls, q⟩] }

def without (r : Roll) (call : Token) : Roll :=
  { r with waiting := Ticket.without call r.waiting }

def launch (r : Roll) (t : Ticket) : Roll :=
  { r with running := r.running ++ [⟨t.call, t.request, false⟩] }

def begun (r : Roll) (call : Token) : Roll :=
  { r with
    running := r.running.map fun x => if x.token = call then { x with started := true } else x }

def ended (r : Roll) (call : Token) : Roll :=
  { r with running := r.running.filter fun x => x.token ≠ call }

structure Distinct (r : Roll) : Prop where
  waiting_lt : ∀ t ∈ r.waiting, t.call < r.calls
  running_lt : ∀ x ∈ r.running, x.token < r.calls
  waiting_nodup : (r.waiting.map Ticket.call).Nodup
  running_nodup : (r.running.map Execution.token).Nodup
  disjoint : ∀ t ∈ r.waiting, ∀ x ∈ r.running, t.call ≠ x.token

inductive Turn (e : Event) (r : Roll) : Roll × List Notice → Prop where
  | stay : Turn e r (r, [])
  | number : Turn e r (r.number, [])
  | refuse (refusal : Refusal) : Turn e r (r.number, [.answered r.calls (.error refusal)])
  | wait {q : TaskRequest} {now : Nat} (asked : e.request? = some (q, now)) :
      Turn e r ((r.wait q).number, [])
  | launch {q : TaskRequest} {now : Nat} (asked : e.request? = some (q, now)) :
      Turn e r ((r.launch ⟨r.calls, q⟩).number, welcome r.calls q)
  | resume {t : Ticket} (mem : t ∈ r.waiting) :
      Turn e r ((r.without t.call).launch t, welcome t.call t.request)
  | turnAway {t : Ticket} (mem : t ∈ r.waiting) (refusal : Refusal) :
      Turn e r (r.without t.call, [.answered t.call (.error refusal)])
  | abandon {t : Ticket} (mem : t ∈ r.waiting) :
      Turn e r (r.without t.call, [.abandoned t.call])
  | carryOn {x : Execution} (mem : x ∈ r.running) :
      Turn e r (r.begun x.token, beginning x.token !x.started)
  | finish {x : Execution} {body : BodyTurn} {expired : Bool} {elapsed : Duration}
      (its : e = .turn x.token body expired elapsed) (mem : x ∈ r.running) (ran : Bool)
      {result : TaskResult} (own : result.taskId = x.request.taskId) :
      Turn e r (r.ended x.token,
        beginning x.token (ran && !x.started) ++ [.reported x.token result])

variable {r : Roll} {call other : Token}

theorem stage_waiting (hr : r.Distinct) {t : Ticket} (mem : t ∈ r.waiting) :
    r.stage t.call = .waiting t.request := by
  rw [stage, find?_key_mem hr.waiting_nodup mem]

theorem stage_running (hr : r.Distinct) {x : Execution} (mem : x ∈ r.running) :
    r.stage x.token = .running x.request x.started := by
  rw [stage, find?_key_none fun t ht => hr.disjoint t ht x mem, find?_key_mem hr.running_nodup mem]

theorem stage_none (hw : ∀ t ∈ r.waiting, t.call ≠ call) (hx : ∀ x ∈ r.running, x.token ≠ call) :
    r.stage call = if call < r.calls then .over else .unborn := by
  rw [stage, find?_key_none hw, find?_key_none hx]

theorem stage_new (hr : r.Distinct) : r.stage r.calls = .unborn := by
  rw [stage_none (fun t ht => Nat.ne_of_lt (hr.waiting_lt t ht))
    (fun x hx => Nat.ne_of_lt (hr.running_lt x hx)), if_neg (Nat.lt_irrefl _)]

theorem number_stage (hr : r.Distinct) : r.number.stage r.calls = .over := by
  refine (stage_none (fun t ht => ?_) fun x hx => ?_).trans (if_pos (Nat.lt_succ_self r.calls))
  · exact Nat.ne_of_lt (hr.waiting_lt t ht)
  · exact Nat.ne_of_lt (hr.running_lt x hx)

theorem without_stage (hr : r.Distinct) {t : Ticket} (mem : t ∈ r.waiting) :
    (r.without t.call).stage t.call = .over := by
  refine (stage_none (fun u hu => ?_) fun x hx => ?_).trans (if_pos (hr.waiting_lt t mem))
  · exact (Ticket.mem_without.1 hu).2
  · exact (hr.disjoint t mem x hx).symm

theorem ended_stage (hr : r.Distinct) {x : Execution} (mem : x ∈ r.running) :
    (r.ended x.token).stage x.token = .over := by
  refine (stage_none (fun t ht => ?_) fun y hy => ?_).trans (if_pos (hr.running_lt x mem))
  · exact hr.disjoint t ht x mem
  · simpa using (List.mem_filter.1 hy).2

theorem stage_congr {r' : Roll}
    (hw : (r'.waiting.find? fun t => t.call = call) = r.waiting.find? fun t => t.call = call)
    (hx : (r'.running.find? fun x => x.token = call) = r.running.find? fun x => x.token = call)
    (hc : call < r'.calls ↔ call < r.calls) : r'.stage call = r.stage call := by
  simp only [stage, hw, hx, hc]

theorem number_stage_ne (h : r.calls ≠ call) : r.number.stage call = r.stage call :=
  stage_congr rfl rfl ⟨fun hlt => Nat.lt_of_le_of_ne (Nat.le_of_lt_succ hlt) h.symm,
    Nat.lt_succ_of_lt⟩

theorem wait_stage_ne (q : TaskRequest) (h : r.calls ≠ call) :
    (r.wait q).stage call = r.stage call :=
  stage_congr (by simp [wait, List.find?_append, h]) rfl Iff.rfl

theorem launch_stage_ne {t : Ticket} (h : t.call ≠ call) :
    (r.launch t).stage call = r.stage call :=
  stage_congr rfl (by simp [launch, List.find?_append, h]) Iff.rfl

theorem without_stage_ne (h : other ≠ call) : (r.without other).stage call = r.stage call :=
  stage_congr (find?_key_filter h) rfl Iff.rfl

theorem ended_stage_ne (h : other ≠ call) : (r.ended other).stage call = r.stage call :=
  stage_congr rfl (find?_key_filter h) Iff.rfl

theorem begun_stage_ne (h : other ≠ call) : (r.begun other).stage call = r.stage call := by
  refine stage_congr rfl (find?_key_map (fun x => ?_) fun x hx => ?_) Iff.rfl
  · split <;> rfl
  · exact if_neg (hx ▸ Ne.symm h)

/-- If one call is taken on, and nothing is told or changed about the others, all are taken on. -/
theorem next_of_own {asked : Token → TaskRequest → Prop} {r' : Roll} {notices : List Notice}
    (own : Token) (hown : (r.stage own).Next (asked own) own notices (r'.stage own))
    (habout : ∀ n ∈ notices, n.about? = some own)
    (hothers : ∀ call, own ≠ call → r'.stage call = r.stage call) (call : Token) :
    (r.stage call).Next (asked call) call (story call notices) (r'.stage call) := by
  by_cases he : own = call
  · subst he
    rwa [story_eq_self habout]
  · have hnil : story call notices = [] := story_eq_nil fun n hn => by
      simpa [habout n hn] using he
    rw [hnil, hothers call he]
    exact .stay _

theorem about_welcome {q : TaskRequest} {n : Notice} (hn : n ∈ welcome call q) :
    n.about? = some call := by
  rcases List.mem_cons.1 hn with rfl | hn
  · rfl
  · rw [List.mem_singleton.1 hn]
    rfl

theorem about_beginning {begins : Bool} {n : Notice} (hn : n ∈ beginning call begins) :
    n.about? = some call := by
  rw [beginning] at hn
  split at hn
  · rw [List.mem_singleton.1 hn]
    rfl
  · cases hn

theorem Turn.next {e : Event} {c : Roll × List Notice} (h : r.Turn e c) (hr : r.Distinct)
    (hr' : c.1.Distinct) (call : Token) :
    (r.stage call).Next (fun q => r.calls = call ∧ ∃ now, e.request? = some (q, now)) call
      (story call c.2) (c.1.stage call) := by
  -- what was asked mentions the call, and `next_of_own` moves from one call to another
  generalize hasked : (fun (call : Token) (q : TaskRequest) =>
    r.calls = call ∧ ∃ now, e.request? = some (q, now)) = asked
  have hask : ∀ {q : TaskRequest} {now : Nat}, e.request? = some (q, now) → asked r.calls q :=
    fun h => hasked ▸ ⟨rfl, _, h⟩
  suffices hnext : (r.stage call).Next (asked call) call (story call c.2) (c.1.stage call) from
    congrFun hasked call ▸ hnext
  cases h with
  | stay => exact .stay _
  | number =>
    refine next_of_own r.calls ?_ (by simp) (fun call he => number_stage_ne he) call
    rw [stage_new hr, number_stage hr]
    exact .number
  | refuse refusal =>
    refine next_of_own r.calls ?_ (by simp [Notice.about?]) (fun call he => number_stage_ne he) call
    rw [stage_new hr, number_stage hr]
    exact .refuse refusal
  | @wait q now asked =>
    have hothers : ∀ call, r.calls ≠ call → (r.wait q).number.stage call = r.stage call := by
      intro call he
      rw [number_stage_ne (show (r.wait q).calls ≠ call from he), wait_stage_ne q he]
    refine next_of_own r.calls ?_ (by simp) hothers call
    have hmem : ⟨r.calls, q⟩ ∈ (r.wait q).number.waiting :=
      List.mem_append_right _ (List.mem_singleton_self _)
    rw [stage_new hr, stage_waiting hr' hmem]
    exact .wait (hask asked)
  | @launch q now asked =>
    have hothers : ∀ call, r.calls ≠ call →
        (r.launch ⟨r.calls, q⟩).number.stage call = r.stage call := by
      intro call he
      rw [number_stage_ne (show (r.launch ⟨r.calls, q⟩).calls ≠ call from he), launch_stage_ne he]
    refine next_of_own r.calls ?_ (fun n hn => about_welcome hn) hothers call
    have hmem : ⟨r.calls, q, false⟩ ∈ (r.launch ⟨r.calls, q⟩).number.running :=
      List.mem_append_right _ (List.mem_singleton_self _)
    rw [stage_new hr, stage_running hr' hmem]
    exact .launch (hask asked)
  | @resume t mem =>
    refine next_of_own t.call ?_ (fun n hn => about_welcome hn)
      (fun call he => (launch_stage_ne he).trans (without_stage_ne he)) call
    have hmem : ⟨t.call, t.request, false⟩ ∈ ((r.without t.call).launch t).running :=
      List.mem_append_right _ (List.mem_singleton_self _)
    rw [stage_waiting hr mem, stage_running hr' hmem]
    exact .resume t.request
  | @turnAway t mem refusal =>
    refine next_of_own t.call ?_ (by simp [Notice.about?]) (fun call he => without_stage_ne he) call
    rw [stage_waiting hr mem, without_stage hr mem]
    exact .turnAway t.request refusal
  | @abandon t mem =>
    refine next_of_own t.call ?_ (by simp [Notice.about?]) (fun call he => without_stage_ne he) call
    rw [stage_waiting hr mem, without_stage hr mem]
    exact .abandon t.request
  | @carryOn x mem =>
    refine next_of_own x.token ?_ (fun n hn => about_beginning hn)
      (fun call he => begun_stage_ne he) call
    have hmem : { x with started := true } ∈ (r.begun x.token).running :=
      List.mem_map.2 ⟨x, mem, if_pos rfl⟩
    rw [stage_running hr mem, stage_running hr' hmem]
    exact .carryOn x.request x.started
  | @finish x body expired elapsed its mem ran result own =>
    refine next_of_own x.token ?_ ?_ (fun call he => ended_stage_ne he) call
    · rw [stage_running hr mem, ended_stage hr mem]
      exact .finish x.request x.started ran own
    · intro n hn
      rcases List.mem_append.1 hn with hn | hn
      · exact about_beginning hn
      · rw [List.mem_singleton.1 hn]
        rfl

end Roll

theorem Outcome.toResult_taskId (o : Outcome) (taskId : String) (elapsed : Duration) :
    (o.toResult taskId elapsed).taskId = taskId := by
  cases o <;> rfl

namespace Worker

def roll (w : Worker) : Roll := ⟨w.calls, w.waiters.map Waiter.ticket, w.running⟩

end Worker

def rollView : View Roll Notice where
  see := Worker.roll
  hear := Notice.tale?
  see_core _ := rfl
  hear_aside n h := by
    cases n with
    | returned | nudged => rfl
    | _ => cases h

namespace Worker

variable (w : Worker)

theorem returnSlot_roll : rollView.of w.returnSlot = (w.roll, []) := by
  have hmap := map_ticket_grantFirst w.waiters
  rw [returnSlot]
  split
  · rfl
  · split
    · rename_i hgrant
      rw [hgrant] at hmap
      simp only [View.of, rollView, roll, hmap]
      rfl
    · rfl

theorem tales_map {α : Type} {f : α → Notice} (h : ∀ a, (f a).about? = none) (as : List α) :
    (as.map f).filterMap rollView.hear = [] := by
  simp [rollView, Notice.tale?, h]

theorem releaseResources_roll (r : TaskRequest) :
    rollView.of (w.releaseResources r) = (w.roll, []) :=
  congrArg (Prod.mk w.roll) (tales_map (fun _ => rfl) _)

theorem endTicket_roll (r : TaskRequest) (slot : Bool) :
    rollView.of (w.endTicket r slot) = (w.roll, []) := by
  rw [rollView.endTicket_eq returnSlot_roll, releaseResources_roll]

theorem next_reject_roll (c : Change) (call : Token) (refusal : Refusal) :
    rollView.of (c.next (reject call refusal)) =
      ((rollView.of c).1, (rollView.of c).2 ++ [.answered call (.error refusal)]) :=
  rollView.next c _

theorem next_abandoned_roll (c : Change) (call : Token) :
    rollView.of (c.next fun w => (w, [.abandoned call])) =
      ((rollView.of c).1, (rollView.of c).2 ++ [.abandoned call]) :=
  rollView.next c _

theorem unqueued_roll (call : Token) : (w.unqueued call).roll = w.roll.without call := by
  simp only [roll, unqueued, map_ticket_filter]
  rfl

theorem leaveQueue_roll (v : Waiter) :
    rollView.of (w.leaveQueue v) = (w.roll.without v.call, []) := by
  rw [leaveQueue]
  split
  · rw [returnSlot_roll, unqueued_roll]
  · exact congrArg (·, []) (w.unqueued_roll v.call)

theorem leave_roll (v : Waiter) (r : TaskRequest) :
    rollView.of ((w.leaveQueue v).next fun w => w.endTicket r false) =
      (w.roll.without v.call, []) := by
  rw [View.next_eq _ fun w => w.endTicket_roll r false, leaveQueue_roll]

theorem launched_roll (call : Token) (r : TaskRequest) (now : Nat) :
    (w.launched call r now).roll = w.roll.launch ⟨call, r⟩ := rfl

theorem queued_roll (call : Token) (r : TaskRequest) :
    (w.queued call r).roll = { w.roll with waiting := w.roll.waiting ++ [⟨call, r⟩] } := by
  simp [roll, queued, Waiter.ticket]

theorem cancelledIf_roll (c : Bool) (t : Token) : (w.cancelledIf c t).roll = w.roll := by
  cases c <;> rfl

theorem beginning_tales (x : Execution) (v : Verdict) :
    (beginning x v).filterMap rollView.hear =
      Stage.beginning x.token (v.bodyRan && !x.started) := by
  rw [beginning, Stage.beginning]
  split <;> rfl

theorem finish_roll (x : Execution) (o : Outcome) (elapsed : Duration) :
    rollView.of (w.finish x o elapsed) =
      (w.roll.ended x.token, [.reported x.token (o.toResult x.request.taskId elapsed)]) := by
  have hend := (w.ended x.token o).endTicket_roll x.request true
  rw [finish, View.next, hend]
  exact congrArg (fun r => (r, _)) (congrArg Prod.fst hend)

theorem stop_roll : rollView.of w.stop = (w.roll, []) := by
  have hwoken : ((w.waiters.filter fun v => !v.granted).map fun v =>
      Notice.woken v.call).filterMap rollView.hear = [] := tales_map (fun _ => rfl) _
  have hroused : (w.running.map fun x => Notice.roused x.token).filterMap rollView.hear = [] :=
    tales_map (fun _ => rfl) _
  refine congrArg (Prod.mk w.roll) ?_
  simp only [stop, List.filterMap_append]
  split <;> split <;> simp only [hwoken, hroused, List.filterMap_nil, List.append_nil]

theorem shutdown_roll : rollView.of w.shutdown = (w.roll.number, []) := by
  rw [rollView.shutdown_eq, stop_roll]
  rfl

variable {w : Worker}

theorem roll_distinct (hb : w.books.Sound) : w.roll.Distinct := by
  have hrunning : w.books.running.map Ticket.call = w.running.map Execution.token := List.map_map
  have hcalls := hb.calls_nodup
  rw [Books.tickets, List.map_append, hrunning] at hcalls
  refine ⟨?_, ?_, hb.waiting_calls_nodup, (List.nodup_append'.1 hcalls).2.1, ?_⟩
  · exact fun t ht => hb.calls_lt t (Books.Sound.waiting_mem ht)
  · exact fun x hx => hb.calls_lt x.ticket (Books.Sound.running_mem (List.mem_map_of_mem hx))
  · exact fun t ht x hx => hb.waiting_ne_running ht (List.mem_map_of_mem hx)

theorem execution?_of_mem (hb : w.books.Sound) {x : Execution} (mem : x ∈ w.running) :
    w.execution? x.token = some x :=
  find?_key_mem (roll_distinct hb).running_nodup mem

theorem bodyRan_of_undecided {m : Moment} {limit : Duration}
    (h : (m.verdict limit).outcome = none) : (m.verdict limit).bodyRan = true := by
  rw [Moment.verdict] at h ⊢
  repeat' split at h
  all_goals simp_all

theorem step_turn (w : Worker) (e : Event) : w.roll.Turn e (rollView.of (w.step e)) := by
  have heffect := w.step_effect e
  generalize w.step e = change at heffect ⊢
  cases heffect with
  | idle => exact .stay
  | respond => exact .number
  | @refuse _ r now refusal asked decided => exact .refuse refusal
  | @queue _ r now ledger asked decided isOpen full =>
    change w.roll.Turn _ (roll _, [])
    rw [queued_roll]
    exact .wait asked
  | @launch _ r now ledger asked decided isOpen free => exact .launch asked
  | @turnAway _ r now ledger asked decided closed =>
    rw [next_reject_roll, endTicket_roll]
    exact .refuse .shuttingDown
  | @resume call now v found isOpen granted accepts =>
    obtain ⟨mem, rfl⟩ := waiter?_mem found
    change w.roll.Turn _ (roll _, _)
    rw [launched_roll, unqueued_roll]
    exact .resume (t := v.ticket) mem
  | @overtake call now v found isOpen granted refuses =>
    obtain ⟨mem, rfl⟩ := waiter?_mem found
    rw [next_reject_roll, endTicket_roll, unqueued_roll]
    exact .turnAway (t := v.ticket) mem .shuttingDown
  | @closeOut call now v found closed =>
    obtain ⟨mem, rfl⟩ := waiter?_mem found
    rw [next_reject_roll, leave_roll]
    exact .turnAway (t := v.ticket) mem .shuttingDown
  | @abandon call v found =>
    obtain ⟨mem, rfl⟩ := waiter?_mem found
    rw [next_abandoned_roll, leave_roll]
    exact .abandon (t := v.ticket) mem
  | @carryOn t body expired x elapsed found undecided =>
    obtain rfl : x.token = t := (execution?_mem found).2
    have hmem : x ∈ w.roll.running := List.mem_of_find?_eq_some found
    have hroused : (if w.cancels (w.moment x.token body expired) then [Notice.roused x.token]
        else []).filterMap rollView.hear = [] := by
      split <;> rfl
    have hroll : ((w.cancelledIf (w.cancels (w.moment x.token body expired)) x.token).carriedOn
        x.token).roll = w.roll.begun x.token :=
      congrArg (fun r : Roll => r.begun x.token) (w.cancelledIf_roll _ x.token)
    change w.roll.Turn _ (roll _, List.filterMap _ _)
    rw [hroll, List.filterMap_append, beginning_tales, hroused, bodyRan_of_undecided undecided,
      Bool.true_and, List.append_nil]
    exact .carryOn hmem
  | @finish t body expired x o elapsed found decided =>
    obtain rfl : x.token = t := (execution?_mem found).2
    have hmem : x ∈ w.roll.running := List.mem_of_find?_eq_some found
    rw [View.next, finish_roll, cancelledIf_roll]
    change w.roll.Turn _ (_, List.filterMap _ (beginning x _) ++ _)
    rw [beginning_tales]
    exact .finish rfl hmem _ (o.toResult_taskId _ elapsed)
  | reportEnded t delivered =>
    rw [rollView.aside (w.reportEnded_aside t delivered)]
    exact .stay
  | shutdown =>
    rw [shutdown_roll]
    exact .number
  | resumeDrain call =>
    rw [rollView.aside (w.resumeDrain_aside call)]
    exact .stay
  | drop =>
    rw [rollView.drop_eq stop_roll]
    exact .stay

def Asked (w : Worker) (events : List Event) (call : Token) (r : TaskRequest) : Prop :=
  ∃ earlier e later now, events = earlier ++ e :: later ∧ e.request? = some (r, now) ∧
    (w.run earlier).1.calls = call

theorem Asked.append {events : List Event} {call : Token} {r : TaskRequest}
    (h : w.Asked events call r) (more : List Event) : w.Asked (events ++ more) call r := by
  obtain ⟨earlier, e, later, now, rfl, asked, hcall⟩ := h
  exact ⟨earlier, e, later ++ more, now, by simp, asked, hcall⟩

theorem start_roll {meter : Meter} {config : Config} (h : start meter config = .ok w) :
    w.roll = ⟨0, [], []⟩ := by
  rw [start_eq h]
  rfl

/-- After every run, what has been told about a call is what its stage tells. -/
theorem run_tells {meter : Meter} {config : Config} (h : start meter config = .ok w)
    (events : List Event) (call : Token) :
    ((w.run events).1.roll.stage call).Tells (w.Asked events call) call
      (story call (w.run events).2) := by
  refine run_induction (P := fun events c => (c.1.roll.stage call).Tells (w.Asked events call) call
    (story call c.2)) ?_ (fun earlier e ih => ?_) events
  · rw [start_roll h]
    exact .unborn
  · have hb := (run_sound (start_sound h) earlier).1
    have hb' := (step_booking hb e).sound hb
    have hnext := (step_turn (w.run earlier).1 e).next (roll_distinct hb) (roll_distinct hb') call
    have hstory : story call (rollView.of ((w.run earlier).1.step e)).2 =
        story call ((w.run earlier).1.step e).2 := story_tales call _
    rw [hstory] at hnext
    rw [Change.next_fst, Change.next_snd, story_append]
    refine (hnext.mono ?_).tells (ih.mono fun r hr => hr.append [e])
    rintro r ⟨hcall, now, asked⟩
    exact ⟨earlier, e, [], now, rfl, asked, hcall⟩

end Worker

end BoundedWorker
