import BoundedWorker.Proofs.Omission

/-!
Indifference to priorities and payloads. Without them a worker takes the same steps, so two runs
whose requests differ in nothing else do: the same is told at every step, and all that can be asked
for is the same but for the priority that the status of a running task shows.
-/

namespace BoundedWorker

structure TaskRequest.Alike (r r' : TaskRequest) : Prop where
  taskId : r'.taskId = r.taskId
  deadline : r'.deadline = r.deadline
  required : r'.required = r.required

inductive Event.Alike : Event → Event → Prop where
  | same (e : Event) : Alike e e
  | request {e e' : Event} {r r' : TaskRequest} {now : Nat} (asked : e.request? = some (r, now))
      (asked' : e'.request? = some (r', now)) (alike : r.Alike r') : Alike e e'

inductive TaskStatus.Alike : TaskStatus → TaskStatus → Prop where
  | awaitingSlot : Alike .awaitingSlot .awaitingSlot
  | running (elapsed : Duration) (priority priority' : Int32) (required : Profile) :
      Alike (.running elapsed priority required) (.running elapsed priority' required)

theorem Notice.renumber_id (n : Notice) : n.renumber (fun call => call) = n := by
  cases n <;> rfl

namespace Recast

/-- All calls under their own numbers, each with the same priority and payload. -/
def blind (calls : Nat) : Recast where
  number call := call
  injective := Function.injective_id
  priority _ _ := 0
  payload _ _ := .null
  calls
  refused := 0

theorem blind_request {r r' : TaskRequest} (h : r.Alike r') (calls call : Nat) :
    (blind calls).request call r' = (blind calls).request call r := by
  simp only [request, blind, h.taskId, h.deadline, h.required]

theorem blind_like {e : Event} (h : e.request? = none) (calls call : Nat) :
    (blind calls).Like call e e := by
  cases e with
  | submit r now => cases h
  | message m freshId now =>
    refine .message now ?_
    rw [Event.request?] at h
    cases hm : m.dispatch freshId with
    | request r => simp [hm] at h
    | malformed fault => rfl
    | unhandled => rfl
  | resume call now => exact .resume call now
  | abandon call => exact .abandon call
  | turn t body expired elapsed => exact .turn t body expired elapsed
  | reportEnded t delivered => exact .reportEnded t delivered
  | shutdown => exact .shutdown
  | resumeDrain call => exact .resumeDrain call
  | drop => exact .drop

end Recast

namespace Worker

open Recast (blind)

def blinded (w : Worker) : Worker := (blind w.calls).worker w

theorem blinded_totals (w : Worker) : w.blinded.totals = w.totals := by
  simp [blinded, Recast.worker, Recast.totals, blind]

theorem blinded_snapshot (w : Worker) : w.blinded.snapshot = w.snapshot := by
  have hactive : w.blinded.registry.activeCount = w.registry.activeCount := List.length_map _
  rw [snapshot, hactive, blinded_totals]
  rfl

theorem step_blinded {w : Worker} {e e' : Event} (like : (blind w.calls).Like w.calls e e') :
    w.blinded.step e' = ((w.step e).1.blinded, (w.step e).2) := by
  have hnotices : ∀ ns : List Notice, ns.map (Notice.renumber fun call => call) = ns := fun ns =>
    (List.map_congr_left fun n _ => n.renumber_id).trans (List.map_id ns)
  have hafter : (blind w.calls).after (w.makesCall e) = blind (w.step e).1.calls := by
    rw [w.step_calls e]
    cases w.makesCall e <;> rfl
  rw [blinded, (blind w.calls).step like fun _ => rfl, hafter, Recast.change]
  exact Prod.ext rfl (hnotices _)

theorem step_eq_submit (w : Worker) {e : Event} {r : TaskRequest} {now : Nat}
    (asked : e.request? = some (r, now)) : w.step e = w.step (.submit r now) := by
  cases hdropped : w.dropped with
  | false => rw [step_request hdropped asked, step_request hdropped rfl]
  | true =>
    cases e with
    | submit r' now' => simp [step, hdropped]
    | message m freshId now' => simp [step, hdropped]
    | _ => cases asked

def Alike (w w' : Worker) : Prop := w'.blinded = w.blinded

theorem Alike.step {w w' : Worker} (h : w.Alike w') {e e' : Event} (alike : e.Alike e') :
    (w'.step e').2 = (w.step e).2 ∧ (w.step e).1.Alike (w'.step e').1 := by
  have hcalls : w'.calls = w.calls := (congrArg Worker.calls h :)
  suffices hblind : ∃ e₀, w.blinded.step e₀ = ((w.step e).1.blinded, (w.step e).2) ∧
      w'.blinded.step e₀ = ((w'.step e').1.blinded, (w'.step e').2) by
    obtain ⟨e₀, hstep, hstep'⟩ := hblind
    have heq := hstep'.symm.trans ((congrArg (Worker.step · e₀) h).trans hstep)
    exact ⟨(congrArg Prod.snd heq :), (congrArg Prod.fst heq :)⟩
  have hsubmit : ∀ {r r' : TaskRequest}, r.Alike r' → ∀ now, ∃ e₀,
      w.blinded.step e₀ = ((w.step (.submit r now)).1.blinded, (w.step (.submit r now)).2) ∧
      w'.blinded.step e₀ =
        ((w'.step (.submit r' now)).1.blinded, (w'.step (.submit r' now)).2) := by
    intro r r' hr now
    refine ⟨_, step_blinded (.submit r now), step_blinded ?_⟩
    rw [hcalls, ← Recast.blind_request hr]
    exact .submit r' now
  cases alike with
  | same =>
    cases asked : e.request? with
    | some asks =>
      obtain ⟨r, now⟩ := asks
      rw [w.step_eq_submit asked, w'.step_eq_submit asked]
      exact hsubmit ⟨rfl, rfl, rfl⟩ now
    | none =>
      have hlike := fun priority payload => Recast.blind_like asked priority payload
      exact ⟨e, step_blinded (hlike _ _), step_blinded (hlike _ _)⟩
  | request asked asked' hr =>
    rw [w.step_eq_submit asked, w'.step_eq_submit asked']
    exact hsubmit hr _

theorem Alike.run {w w' : Worker} (h : w.Alike w') {events events' : List Event}
    (alike : List.Forall₂ Event.Alike events events') :
    (w'.run events').2 = (w.run events).2 ∧ (w.run events).1.Alike (w'.run events').1 := by
  induction alike generalizing w w' with
  | nil => exact ⟨rfl, h⟩
  | cons he _ ih =>
    obtain ⟨hnotices, hafter⟩ := h.step he
    obtain ⟨hlater, hend⟩ := ih hafter
    exact ⟨congrArg₂ (· ++ ·) hnotices hlater, hend⟩

structure Shows (w w' : Worker) : Prop where
  ledger : w'.ledger = w.ledger
  snapshot : w'.snapshot = w.snapshot
  totals : w'.totals = w.totals
  health : w'.health = w.health
  status : ∀ now taskId,
    Option.Rel TaskStatus.Alike (w.status? now taskId) (w'.status? now taskId)

theorem Alike.status? {w w' : Worker} (h : w.Alike w') (now : Nat) (taskId : String) :
    Option.Rel TaskStatus.Alike (w.status? now taskId) (w'.status? now taskId) := by
  have hwaiting : w'.registry.waiting = w.registry.waiting :=
    (congrArg (fun u : Worker => u.registry.waiting) h :)
  have hrunning : (w'.registry.running.get? taskId).map (blind w'.calls).handle =
      (w.registry.running.get? taskId).map (blind w.calls).handle := by
    rw [← Table.get?_map, ← Table.get?_map]
    exact congrArg (fun u : Worker => u.registry.running.get? taskId) h
  rw [Worker.status?, Worker.status?, Registry.status?, Registry.status?, hwaiting]
  cases hw : w.registry.running.get? taskId <;> cases hw' : w'.registry.running.get? taskId <;>
    rw [hw, hw'] at hrunning
  case none.none =>
    dsimp only
    split
    · exact .some TaskStatus.Alike.awaitingSlot
    · exact .none
  case some.some entry entry' =>
    have hentry := Option.some_inj.1 hrunning
    have hstarted : entry'.startedAt = entry.startedAt :=
      (congrArg Handle.startedAt hentry :)
    have hrequired : entry'.required = entry.required :=
      (congrArg Handle.required hentry :)
    dsimp only
    rw [hstarted, hrequired]
    exact .some (TaskStatus.Alike.running _ entry.priority entry'.priority entry.required)
  all_goals cases hrunning

theorem Alike.shows {w w' : Worker} (h : w.Alike w') : w.Shows w' where
  ledger := (congrArg Worker.ledger h :)
  snapshot := by rw [← blinded_snapshot, ← w.blinded_snapshot, h]
  totals := by rw [← blinded_totals, ← w.blinded_totals, h]
  health := (congrArg Worker.health h :)
  status := h.status?

/-- Nothing depends on priorities and payloads: where the requests of two runs differ in these
alone, the same answers, reports and returns come of every step, and after every step the loads, the
counters and the snapshots are the same, and the statuses but for their priorities. -/
theorem run_indifferent (w : Worker) {events events' : List Event}
    (alike : List.Forall₂ Event.Alike events events') (steps : Nat) :
    (w.run (events'.take steps)).2 = (w.run (events.take steps)).2 ∧
      (w.run (events.take steps)).1.Shows (w.run (events'.take steps)).1 := by
  have hsame : w.Alike w := rfl
  obtain ⟨hnotices, hend⟩ := hsame.run (List.forall₂_take steps alike)
  exact ⟨hnotices, hend.shows⟩

theorem run_indifferent_swapped : ∃ config, config =
      { Config.standard "w" with maxConcurrentTasks := 1 } ∧
    ∃ w, start .millionths config = .ok w ∧ ∃ events : Int32 → Int32 → Value → List Event,
      events = (fun first second payload =>
        [.submit { TaskRequest.new "a" payload with priority := first } 0,
          .submit { TaskRequest.new "b" .null with priority := second } 0,
          .turn 0 ⟨false, some (.completed .empty)⟩ false .zero, .resume 1 0]) ∧
      (w.run (events 9 1 (.ofJson (.bool true)))).2 = (w.run (events 1 9 .null)).2 ∧
      (w.run (events 9 1 (.ofJson (.bool true)))).1.status? 0 "b" =
        some (.running .zero 1 TaskRequest.defaultRequired) ∧
      (w.run (events 1 9 .null)).1.status? 0 "b" =
        some (.running .zero 9 TaskRequest.defaultRequired) := by
  have hrun : ∀ (w : Worker) {events events' : List Event},
      List.Forall₂ Event.Alike events events' → (w.run events').2 = (w.run events).2 := by
    intro w events events' alike
    have htake := (run_indifferent w alike events.length).1
    rwa [List.take_length, alike.length_eq, List.take_length] at htake
  refine ⟨_, rfl, _, rfl, _, rfl, hrun _ ?_, rfl, rfl⟩
  refine .cons (.request rfl rfl ⟨rfl, rfl, rfl⟩) (.cons (.request rfl rfl ⟨rfl, rfl, rfl⟩) ?_)
  exact .cons (.same _) (.cons (.same _) .nil)

end Worker

end BoundedWorker
