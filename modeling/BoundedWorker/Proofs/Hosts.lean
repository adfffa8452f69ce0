import BoundedWorker.Host.Clock
import BoundedWorker.Proofs.Turns

/-!
Hosts. On one thread, where jobs that are ready take turns first come first served, tasks start in
the order in which their requests reserved resources, as long as no more slots come back before a
request takes its turn than were waited for when it came in, or only one.
-/

namespace BoundedWorker

def Job.Plain (j : Job) : Prop := j.resumed? = none ∧ j.bringsRequest = false

theorem Worker.drop_waiters (w : Worker) : w.drop.1.waiters = w.waiters := by
  rw [drop]
  split
  · rfl
  · split <;> rfl

namespace Host

/-- A host that has noted something: these calls take their turns after all jobs that are ready. -/
structure Grows (h h' : Host) (called : List Token) : Prop where
  worker : h'.worker = h.worker
  ready : ∃ more, h'.ready = h.ready ++ more ∧ resumes more = called ∧
    ∀ i ∈ more, i.bringsRequest = false
  timers : ∀ t ∈ h'.timers, t ∈ h.timers ∨ t.job.Plain

theorem Grows.of_eq {h h' : Host} (worker : h'.worker = h.worker) (ready : h'.ready = h.ready)
    (timers : h'.timers = h.timers) : Grows h h' [] :=
  ⟨worker, ⟨[], by rw [ready, List.append_nil], rfl, nofun⟩, fun _ mem => .inl (timers ▸ mem)⟩

theorem Grows.trans {h h' h'' : Host} {called more : List Token} (first : Grows h h' called)
    (second : Grows h' h'' more) : Grows h h'' (called ++ more) := by
  obtain ⟨jobs, hready, hresumes, hnone⟩ := first.ready
  obtain ⟨jobs', hready', hresumes', hnone'⟩ := second.ready
  refine ⟨second.worker.trans first.worker, ⟨jobs ++ jobs', ?_, ?_, ?_⟩, fun t mem => ?_⟩
  · rw [hready', hready, List.append_assoc]
  · rw [resumes_append, hresumes, hresumes']
  · exact List.forall_mem_append.2 ⟨hnone, hnone'⟩
  · exact (second.timers t mem).elim (first.timers t) .inr

theorem Grows.cons {h h' : Host} {called : List Token} (grows : Grows h h' called) (j : Job) :
    Grows { h with ready := j :: h.ready } { h' with ready := j :: h'.ready } called := by
  obtain ⟨more, hready, hmore⟩ := grows.ready
  exact ⟨grows.worker, ⟨more, by rw [hready, List.cons_append], hmore⟩, grows.timers⟩

variable (h : Host)

theorem enqueue_grows {j : Job} (none : j.bringsRequest = false) :
    Grows h (h.enqueue j) j.resumed?.toList := by
  refine ⟨rfl, ⟨[j], rfl, ?_, by simpa using none⟩, fun _ => .inl⟩
  cases hj : j.resumed? <;> simp [resumes, hj]

theorem addTimer_grows {j : Job} (plain : j.Plain) (due : Nat) : Grows h (h.addTimer due j) [] := by
  refine ⟨rfl, ⟨[], (List.append_nil _).symm, rfl, nofun⟩, fun t mem => ?_⟩
  rcases List.mem_append.1 mem with mem | mem
  · exact .inl mem
  · exact .inr (List.mem_singleton.1 mem ▸ plain)

theorem seeAnswer_grows (call : Token) (answer : Answer) :
    Grows h (h.seeAnswer call answer) [] := by
  rw [seeAnswer]
  split
  · exact .of_eq rfl rfl rfl
  · dsimp only
    split <;> exact .of_eq rfl rfl rfl

theorem beginBody_grows (t : Token) : Grows h (h.beginBody t) [] := by
  rw [beginBody]
  split
  · exact .of_eq rfl rfl rfl
  · rename_i e _
    let b : Body := ⟨e.request.taskId, e.request.priority, h.script e.request.payload, .fresh, none⟩
    have hset : Grows h (h.setBody t b) [] := .of_eq rfl rfl rfl
    exact hset.trans (enqueue_grows _ (j := .turn t) rfl)

theorem foldl_grows {α : Type} {f : Host → α → Host} {called : α → List Token}
    (each : ∀ h a, Grows h (f h a) (called a)) (as : List α) (h : Host) :
    Grows h (as.foldl f h) (as.flatMap called) := by
  induction as generalizing h with
  | nil => exact .of_eq rfl rfl rfl
  | cons a rest ih => exact (each h a).trans (ih (f h a))

theorem deliver_grows (t : Token) (r : TaskResult) : Grows h (h.deliver t r) [] := by
  have hkept : ∀ results : List TaskResult, Grows h (results.foldl (fun h r =>
      { h.see t (.reported r) with deliveries := h.deliveries ++ [(t, r)] }) h) [] := by
    intro results
    have hfold := foldl_grows (f := fun (h : Host) r =>
      { h.see t (.reported r) with deliveries := h.deliveries ++ [(t, r)] })
      (fun _ _ => .of_eq rfl rfl rfl) results h
    rwa [List.flatMap_eq_nil_iff.2 fun _ _ => rfl] at hfold
  rw [deliver]
  dsimp only
  split
  · exact (hkept _).trans (enqueue_grows _ (j := .reportEnded t) rfl)
  · exact (hkept _).trans (addTimer_grows _ ⟨rfl, rfl⟩ _)

theorem note_grows (n : Notice) : Grows h (h.note n) n.woken?.toList := by
  cases n with
  | answered call answer => exact h.seeAnswer_grows call answer
  | launched t => exact h.beginBody_grows t
  | reported t r => exact h.deliver_grows t r
  | woken call => exact h.enqueue_grows rfl
  | roused t => exact h.enqueue_grows rfl
  | nudged call => exact h.enqueue_grows rfl
  | started t =>
    rw [note]
    split <;> exact .of_eq rfl rfl rfl
  | _ => exact .of_eq rfl rfl rfl

theorem apply_grows (e : Event) : Grows { h with worker := (h.worker.step e).1 } (h.apply e)
    (woken (h.worker.step e).2) := by
  rw [woken, List.filterMap_eq_flatMap_toList]
  exact foldl_grows note_grows (h.worker.step e).2 _

theorem limitBody_grows (t : Token) (b : Body) : Grows h (h.limitBody t b).1 [] := by
  rw [limitBody]
  split
  · exact .of_eq rfl rfl rfl
  · exact h.addTimer_grows ⟨rfl, rfl⟩ _

theorem turnBody_grows (t : Token) : Grows h (h.turnBody t).1 [] := by
  rw [turnBody]
  split
  · rename_i b _ _
    split
    · exact .of_eq rfl rfl rfl
    · have hlimit := h.limitBody_grows t b
      generalize h.limitBody t b = c at hlimit ⊢
      obtain ⟨h', b⟩ := c
      dsimp only at hlimit ⊢
      split
      · exact (hlimit.trans (addTimer_grows h' ⟨rfl, rfl⟩ _)).trans (.of_eq rfl rfl rfl)
      · exact hlimit.trans (.of_eq rfl rfl rfl)
  · exact .of_eq rfl rfl rfl

theorem turnBody_event {t : Token} {e : Event} (event : (h.turnBody t).2 = some e) :
    ∃ body expired elapsed, e = .turn t body expired elapsed := by
  rw [turnBody] at event
  split at event
  · split at event
    · exact ⟨_, _, _, (Option.some_inj.1 event).symm⟩
    · exact ⟨_, _, _, (Option.some_inj.1 event).symm⟩
  · cases event

theorem endReport_grows (t : Token) : Grows h (h.endReport t).1 [] := by
  rw [endReport]
  split <;> exact .of_eq rfl rfl rfl

theorem endReport_event {t : Token} {e : Event} (event : (h.endReport t).2 = some e) :
    ∃ delivered, e = .reportEnded t delivered := by
  rw [endReport] at event
  split at event
  · cases event
  · exact ⟨_, (Option.some_inj.1 event).symm⟩

theorem prepare_grows (j : Job) : Grows h (h.prepare j).1 [] := by
  cases j with
  | turn t => exact h.turnBody_grows t
  | reportEnded t => exact h.endReport_grows t
  | _ => exact .of_eq rfl rfl rfl

theorem prepare_leads {j : Job} {e : Event} (event : (h.prepare j).2 = some e) : j.Leads e := by
  cases j with
  | turn t =>
    obtain ⟨body, expired, elapsed, rfl⟩ := h.turnBody_event event
    exact ⟨rfl, nofun, fun _ => rfl⟩
  | reportEnded t =>
    obtain ⟨delivered, rfl⟩ := h.endReport_event event
    exact ⟨rfl, nofun, nofun⟩
  | submit | message =>
    obtain rfl := Option.some_inj.1 event
    exact ⟨rfl, fun _ _ => rfl, nofun⟩
  | resume | shutdown | resumeDrain =>
    obtain rfl := Option.some_inj.1 event
    exact ⟨rfl, nofun, nofun⟩
  | abandon =>
    obtain rfl := Option.some_inj.1 event
    exact ⟨rfl, nofun, fun _ => rfl⟩

theorem prepare_idle {j : Job} (idle : (h.prepare j).2 = none) : j.resumed? = none := by
  cases j with
  | resume => cases idle
  | _ => rfl

def dropping (h : Host) : List Event := if h.unheld then [.drop] else []

def events (h : Host) (j : Job) : List Event :=
  let (h, event) := h.prepare j
  event.toList ++ (event.elim h h.apply).dropping

/-- What a host may go through, with the events of its worker. A request may come in while slots
come back, but no more of them than are waited for, or only one: of more slots, one could be free
for it before the last who was given one takes its turn. -/
inductive Move : Host → List Event → Host → Prop where
  | job {h : Host} {j : Job} {rest : List Job} (first : h.ready = j :: rest) :
      Move h ({ h with ready := rest }.events j) ({ h with ready := rest }.perform j)
  | request (h : Host) {j : Job} (brings : j.bringsRequest = true)
      (few : h.ready.countP Job.mayFree ≤ max 1 h.worker.slots.seeking) : Move h [] (h.enqueue j)
  | abandon (h : Host) (taskId : String) : Move h [] (h.abandon taskId).1
  | shutdown (h : Host) : Move h [] (h.enqueue .shutdown)
  | wait (h : Host) (clock : Nat) : Move h [] { h with clock }
  | fire (h : Host) : Move h [] h.fire
  | register (h : Host) (registered : Bool) : Move h [] { h with registered }
  | letGo (h : Host) : Move h { h with held := false }.dropping h.letGo

inductive Runs (start : Host) : List Event → Host → Prop where
  | refl : Runs start [] start
  | next {events more : List Event} {h h' : Host} (runs : Runs start events h)
      (move : Move h more h') : Runs start (events ++ more) h'

/-- After these events of a worker, nobody has been passed over, and nobody will be by jobs that are
ready. -/
structure Orderly (w : Worker) (events : List Event) (h : Host) : Prop where
  worker : h.worker = (w.run events).1
  timers : ∀ t ∈ h.timers, t.job.Plain
  turns : h.worker.slotsClosed = false → h.worker.slots.InTurn h.ready
  order : w.KeepsOrder events

namespace Orderly

variable {w : Worker} {events : List Event} {h h' : Host}

theorem grow (ho : Orderly w events h) (grows : Grows h h' []) : Orderly w events h' := by
  obtain ⟨more, hready, silent, none⟩ := grows.ready
  refine ⟨grows.worker.trans ho.worker, fun t mem => ?_, fun isOpen => ?_, ho.order⟩
  · exact (grows.timers t mem).elim (ho.timers t) id
  · rw [grows.worker] at isOpen ⊢
    exact hready ▸ (ho.turns isOpen).append silent none

theorem fire (ho : Orderly w events h) : Orderly w events h.fire := by
  have hplain : ∀ t ∈ h.timers.filter (fun t => t.due ≤ h.clock), t.job.Plain := fun t mem =>
    ho.timers t (List.mem_filter.1 mem).1
  refine ho.grow ⟨rfl, ⟨_, rfl, ?_, ?_⟩, fun t mem => .inl (List.mem_filter.1 mem).1⟩
  · rw [resumes, List.filterMap_map, List.filterMap_eq_nil_iff]
    exact fun t mem => (hplain t mem).1
  · exact List.forall_mem_map.2 fun t mem => (hplain t mem).2

section Start

variable {meter : Meter} {config : Config} (started : Worker.start meter config = .ok w)

include started

theorem handed (hworker : h.worker = (w.run events).1) (isOpen : h.worker.slotsClosed = false) :
    0 < h.worker.slots.free → ∀ v ∈ h.worker.slots.waiters, v.granted = true := by
  have hkept := Worker.run_kept (Worker.start_sound started) (Worker.start_kept started) events
  rw [← hworker] at hkept
  exact hkept.handed isOpen

theorem switched (hworker : h.worker = (w.run events).1) : h.worker.Switched :=
  hworker ▸ Worker.run_switched (Worker.start_switched started) events

theorem request (ho : Orderly w events h) {j : Job} (brings : j.bringsRequest = true)
    (few : h.ready.countP Job.mayFree ≤ max 1 h.worker.slots.seeking) :
    Orderly w events (h.enqueue j) := by
  have silent : j.resumed? = none := by
    cases j with
    | submit | message => rfl
    | _ => cases brings
  refine ⟨ho.worker, ho.timers, fun isOpen => ?_, ho.order⟩
  exact (ho.turns isOpen).request (handed started ho.worker isOpen) silent few

theorem apply {j : Job} (ho : Orderly w events { h with ready := j :: h.ready }) {e : Event}
    (leads : j.Leads e) : Orderly w (events ++ [e]) (h.apply e) := by
  obtain ⟨hworker, timers, turns, order⟩ := ho
  dsimp only at hworker timers turns
  have hs := switched started hworker
  have hd : h.worker.slots.Distinct := hworker ▸ Worker.run_distinct started events
  have hrun : (w.run (events ++ [e])).1 = (h.worker.step e).1 := by
    rw [Worker.run_snoc, Change.next_fst, hworker]
  have hgrows := h.apply_grows e
  have hafter : (h.apply e).worker = (h.worker.step e).1 := hgrows.worker
  refine ⟨hafter.trans hrun.symm, fun t mem => ?_, fun isOpen => ?_, order.snoc ?_⟩
  · exact (hgrows.timers t mem).elim (timers t) id
  · rw [hafter] at isOpen ⊢
    obtain ⟨more, hready, called, none⟩ := hgrows.ready
    cases closed : h.worker.slotsClosed with
    | false =>
      have pairs := Worker.run_before started (events ++ [e]) (hrun ▸ isOpen)
      rw [hrun] at pairs
      have shift := Worker.step_shift (hs.serving_of_open closed) hd e
      exact hready ▸ (turns closed).step shift leads hd pairs (handed started hworker closed)
        isOpen called none
    | true =>
      have hstopped := Worker.step_stopped (hs.stopped_of_closed closed) e
      exact absurd isOpen (by simp [hstopped.closed])
  · rw [← hworker]
    cases closed : h.worker.slotsClosed with
    | false =>
      exact (turns closed).passes (Worker.step_shift (hs.serving_of_open closed) hd e) leads
        (handed started hworker closed)
    | true =>
      intro call hcall
      rw [Worker.launches_of_closed hs closed] at hcall
      cases hcall

theorem dropIfUnheld (ho : Orderly w events h) :
    Orderly w (events ++ h.dropping) h.dropIfUnheld := by
  cases unheld : h.unheld with
  | false => simpa [dropping, Host.dropIfUnheld, unheld] using ho
  | true =>
    have hcallers : h.worker.hasCallers = false := by
      simp only [Host.unheld, Bool.not_eq_true', Bool.or_eq_false_iff] at unheld
      exact unheld.1.2
    have hnobody : h.worker.waiters = [] := by
      simp only [Worker.hasCallers, Bool.or_eq_false_iff, Bool.not_eq_false'] at hcallers
      exact List.isEmpty_iff.1 hcallers.1
    have hstopped : (h.worker.step .drop).1.Stopped :=
      (switched started ho.worker).drop_stopped hcallers
    have hgrows := h.apply_grows .drop
    have hafter : (h.apply .drop).worker = (h.worker.step .drop).1 := hgrows.worker
    rw [dropping, Host.dropIfUnheld, unheld, if_pos rfl, if_pos rfl]
    refine ⟨?_, fun t mem => ?_, fun isOpen => ?_, ho.order.snoc fun call _ v mem => ?_⟩
    · rw [hafter, Worker.run_snoc, Change.next_fst, ← ho.worker]
    · exact (hgrows.timers t mem).elim (ho.timers t) id
    · rw [hafter, hstopped.closed] at isOpen
      cases isOpen
    · rw [← ho.worker, Worker.step, Worker.drop_waiters, hnobody] at mem
      cases mem

theorem perform {j : Job} (ho : Orderly w events { h with ready := j :: h.ready }) :
    Orderly w (events ++ h.events j) (h.perform j) := by
  have hprepared := ho.grow ((h.prepare_grows j).cons j)
  have hidle := h.prepare_idle (j := j)
  have hleads : ∀ e, (h.prepare j).2 = some e → j.Leads e := fun _ => h.prepare_leads
  rw [Host.events, Host.perform]
  generalize h.prepare j = c at hprepared hidle hleads ⊢
  obtain ⟨h', _ | e⟩ := c
  · have hpop : Orderly w events h' := by
      refine ⟨hprepared.worker, hprepared.timers, fun isOpen => ?_, hprepared.order⟩
      exact (hprepared.turns isOpen).pop le_rfl (fun _ => .inl)
        (fun v _ _ heq => nomatch (hidle rfl).symm.trans heq) fun full =>
          ⟨full, Nat.le_add_right _ _⟩
    exact hpop.dropIfUnheld started
  · have hdrop := (hprepared.apply started (hleads e rfl)).dropIfUnheld started
    rwa [List.append_assoc] at hdrop

theorem move (ho : Orderly w events h) {more : List Event} (move : Move h more h') :
    Orderly w (events ++ more) h' := by
  cases move with
  | @job j rest first =>
    have hfirst : { h with ready := j :: rest } = h := by rw [← first]
    exact perform started (h := { h with ready := rest }) (hfirst ▸ ho)
  | letGo =>
    have hlet : Orderly w events { h with held := false } := ho.grow (.of_eq rfl rfl rfl)
    exact hlet.dropIfUnheld started
  | request brings few => exact (List.append_nil events).symm ▸ ho.request started brings few
  | abandon taskId =>
    rw [List.append_nil, Host.abandon]
    split
    · exact ho
    · rename_i call _
      have herase : Grows h { h with lastCall := h.lastCall.erase taskId } [] :=
        .of_eq rfl rfl rfl
      exact ho.grow (herase.trans (enqueue_grows _ (j := .abandon call) rfl))
  | shutdown => exact (List.append_nil events).symm ▸ ho.grow (h.enqueue_grows rfl)
  | fire => exact (List.append_nil events).symm ▸ ho.fire
  | wait | register => exact (List.append_nil events).symm ▸ ho.grow (.of_eq rfl rfl rfl)

theorem runs {script : Value → Script} {place : Option Place} {reporter : SlowReporter}
    {epoch : Nat} (runs : (Host.new w script place reporter epoch).Runs events h) :
    Orderly w events h := by
  induction runs with
  | refl =>
    refine ⟨rfl, fun t mem => absurd mem List.not_mem_nil, fun _ => ?_, fun earlier e later => ?_⟩
    · have hnobody : ∀ v, v ∉ w.slots.waiters := by
        rw [Worker.start_eq started]
        exact fun v => List.not_mem_nil
      refine ⟨fun v mem => absurd mem (hnobody v), .nil, nofun, fun v mem => absurd mem (hnobody v),
        fun before j after heq => ?_⟩
      exact absurd heq (by simp [Host.new])
    · simp
  | next _ hmove ih => exact ih.move started hmove

end Start

end Orderly

def work (h : Host) : Nat → List Event × Host
  | 0 => ([], h)
  | n + 1 =>
    match h.ready with
    | [] => ([], h)
    | j :: rest =>
      let c := ({ h with ready := rest }.perform j).work n
      ({ h with ready := rest }.events j ++ c.1, c.2)

theorem work_snd (h : Host) (n : Nat) : (h.work n).2 = h.drain n := by
  induction n generalizing h with
  | zero => rfl
  | succ n ih =>
    rw [work, drain]
    cases h.ready with
    | nil => rfl
    | cons j rest => exact ih _

theorem Runs.work {start h : Host} {events : List Event} (runs : start.Runs events h) (n : Nat) :
    start.Runs (events ++ (h.work n).1) (h.work n).2 := by
  induction n generalizing h events with
  | zero => simpa [Host.work] using runs
  | succ n ih =>
    rw [Host.work]
    split
    · simpa using runs
    · have hnext := ih (runs.next (.job ‹_›))
      rwa [List.append_assoc] at hnext

section Drive

variable {start h : Host} (reached : ∃ events, start.Runs events h)

include reached

theorem reach_move {events : List Event} {h' : Host} (move : Move h events h') :
    ∃ events, start.Runs events h' :=
  reached.elim fun _ runs => ⟨_, runs.next move⟩

theorem reach_drain (n : Nat) : ∃ events, start.Runs events (h.drain n) :=
  reached.elim fun _ runs => ⟨_, work_snd h n ▸ runs.work n⟩

theorem reach_settle : ∃ events, start.Runs events h.settle := reach_drain reached _

theorem reach_advanceTo (target n : Nat) : ∃ events, start.Runs events (h.advanceTo target n) := by
  induction n generalizing h with
  | zero => exact reach_move reached (.wait h target)
  | succ n ih =>
    rw [advanceTo]
    split
    · split
      · rename_i due _ _
        have hwaited := reach_move reached (.wait h (max h.clock due))
        exact ih (reach_settle (reach_move hwaited (.fire _)))
      · exact reach_move reached (.wait h target)
    · exact reach_move reached (.wait h target)

theorem reach_advance (ms : Nat) : ∃ events, start.Runs events (h.advance ms) :=
  reach_advanceTo reached _ _

theorem reach_requests {jobs : List Job} (brings : ∀ j ∈ jobs, j.bringsRequest = true)
    (none : h.ready.countP Job.mayFree = 0) :
    ∃ events, start.Runs events (jobs.foldl enqueue h) := by
  induction jobs generalizing h with
  | nil => exact reached
  | cons j rest ih =>
    obtain ⟨hfirst, hrest⟩ := List.forall_mem_cons.1 brings
    have hkeeps : j.mayFree = false := by
      cases j with
      | submit | message => rfl
      | _ => cases hfirst
    refine ih (reach_move reached (.request h hfirst (none ▸ Nat.zero_le _))) hrest ?_
    rw [enqueue, List.countP_append, none, List.countP_singleton, hkeeps]
    rfl

end Drive

/-- First reserved, first started. Whatever the order of events, nobody starts while an earlier
request has no slot, and with one slot nobody starts while an earlier request waits. With any number
of slots, a host to which requests come in as in `Move` starts tasks in the order in which their
requests reserved resources, and none while an earlier request waits. -/
theorem runs_inOrder {meter : Meter} {config : Config} {w : Worker}
    (started : Worker.start meter config = .ok w) :
    (∀ events e call, .launched call ∈ ((w.run events).1.step e).2 →
        ∀ v ∈ ((w.run events).1.step e).1.waiters, v.call < call → v.granted = true) ∧
      (config.maxConcurrentTasks.toNat = 1 → ∀ events, w.InOrder events) ∧
      ∀ script place reporter epoch events h,
        (Host.new w script place reporter epoch).Runs events h →
          h.worker = (w.run events).1 ∧ w.InOrder events := by
  refine ⟨?_, fun one events => ?_, fun script place reporter epoch events h hruns => ?_⟩
  · exact fun events e _ launched => Worker.run_granted started events e launched
  · exact (Worker.run_keepsOrder_of_one started one events).inOrder started
  · have ho := Orderly.runs started hruns
    exact ⟨ho.worker, ho.order.inOrder started⟩

theorem runs_inOrder_freed : ∃ config, config =
      { Config.standard "w" with maxConcurrentTasks := 2 } ∧
    ∃ w, Worker.start .millionths config = .ok w ∧ ∃ first, first =
        Host.new w (fun payload => ⟨false, 0, match payload with
          | .null => .finish (.completed .empty)
          | _ => .hang⟩) none ⟨0, fun _ => .ok ()⟩ 0 ∧
      ∃ events h, first.Runs events h ∧ launches (w.run events).2 = [0, 1, 2] ∧
        (w.reservations events).filter (fun call => call ∉ lefts (w.run events).2) =
          [0, 1, 2, 3] := by
  refine ⟨_, rfl, _, rfl, _, rfl, ?_⟩
  have hinOrder := (@runs_inOrder .millionths
    { Config.standard "w" with maxConcurrentTasks := 2 } _ rfl).2.2
  refine (fun hruns launched waiting => ⟨_, _, hruns, launched, ?_⟩ : ∀ {events h},
    Runs _ events h → launches _ = [0, 1, 2] → h.worker.waiters.map Waiter.call = [3] → _)
    -- the first task hangs, and the turn of the second is ready when the fourth comes in
    (Runs.work (.next (Runs.work (.next (.next (.next .refl
      (.request _ (j := .submit .direct (.new "a" (.ofJson (.bool true)))) rfl (Nat.zero_le _)))
      (.request _ (j := .submit .direct (.new "b" .null)) rfl (Nat.zero_le _)))
      (.request _ (j := .submit .direct (.new "c" .null)) rfl (Nat.zero_le _))) 4)
      (.request _ (j := .submit .direct (.new "d" .null)) rfl (by decide))) 3) (by rfl) (by rfl)
  obtain ⟨hworker, hordered⟩ := hinOrder _ _ _ _ _ _ hruns
  rw [hordered.order, launched, ← hworker, waiting]
  rfl

/-- Two slots come back while one request waits. It is given the first, but the second is free for a
request that comes in before it takes its turn. -/
example : ∃ w, .ok w = Worker.start .millionths
      { Config.standard "w" with maxConcurrentTasks := 2 } ∧
    ∃ c, c = w.run [.submit (.new "a" .null) 0, .submit (.new "b" .null) 0,
      .submit (.new "c" .null) 0, .turn 0 ⟨false, some (.completed .empty)⟩ false .zero,
      .turn 1 ⟨false, some (.completed .empty)⟩ false .zero, .submit (.new "d" .null) 0,
      .resume 2 0] ∧ launches c.2 = [0, 1, 3, 2] :=
  ⟨_, rfl, _, rfl, rfl⟩

end Host

end BoundedWorker
