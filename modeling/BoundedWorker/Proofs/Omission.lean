import BoundedWorker.Proofs.Recasting
import Mathlib.Data.Nat.Nth

/-!
Omission. A request or a message that is turned away changes nothing but the counters of submissions
and refusals. So such calls can be left out of a run: what else happens in it happens as before,
with the calls that are left numbered through.
-/

namespace BoundedWorker

def Event.brings : Event → Bool
  | .submit _ _ | .message _ _ _ => true
  | _ => false

namespace Worker

/-- A request or a message is refused, or responded to, in the step that brings it. -/
structure TurnsAway (w : Worker) (e : Event) : Prop where
  brings : e.brings = true
  told : (∃ refusal, .answered w.calls (.error refusal) ∈ (w.step e).2) ∨
    ∃ response, .responded w.calls response ∈ (w.step e).2

/-- What a worker does that turns something away: a submission counts as submitted and rejected, a
message that leads to none does not even count. -/
inductive Dismissal (w : Worker) : Event → Change → Prop where
  | refused {e : Event} {r : TaskRequest} {now : Nat} {refusal : Refusal}
      (asked : e.request? = some (r, now)) (against : w.decide r now = .error refusal) :
      Dismissal w e ({ w with
          calls := w.calls + 1
          totals := { w.totals with
            submitted := w.totals.submitted + 1
            rejected := w.totals.rejected + 1 } },
        [.answered w.calls (.error refusal)])
  | responded {m : AgentMessage} {freshId : String} {response : AdmissionResponse} (now : Nat)
      (unread : (m.dispatch freshId).response? = some response) :
      Dismissal w (.message m freshId now)
        ({ w with calls := w.calls + 1 }, [.responded w.calls response])

variable {w : Worker}

theorem acquire_not_refused (isOpen : w.slotsClosed = false) (accepts : w.accepting = true)
    (call : Token) (r : TaskRequest) (now : Nat) :
    (w.acquire call r now).2 = [] ∨
      (w.acquire call r now).2 = [.launched call, .answered call (.ok r.taskId)] := by
  rw [acquire, if_neg (by simp [isOpen])]
  split
  · have haccepts : w.slotTaken.accepting = true := accepts
    rw [launch, if_neg (by simp [haccepts])]
    exact .inr rfl
  · exact .inl rfl

theorem submit_of_error {r : TaskRequest} {now : Nat} {refusal : Refusal}
    (against : w.decide r now = .error refusal) :
    w.submit r now = w.opened.reject w.calls refusal := by
  have hopened : w.opened.decide r now = w.decide r now := rfl
  rw [submit, hopened, against]

theorem message_of_response {m : AgentMessage} {freshId : String} {response : AdmissionResponse}
    (unread : (m.dispatch freshId).response? = some response) (now : Nat) :
    w.message m freshId now = (w.numbered, [.responded w.calls response]) := by
  rw [message]
  cases dispatched : m.dispatch freshId with
  | request r => simp [dispatched, Dispatch.response?] at unread
  | malformed | unhandled =>
    rw [dispatched] at unread
    obtain rfl := Option.some.inj unread
    rfl

theorem submit_turned_away (hs : w.Switched) {r : TaskRequest} {now : Nat}
    (told : (∃ refusal, .answered w.calls (.error refusal) ∈ (w.submit r now).2) ∨
      ∃ response, .responded w.calls response ∈ (w.submit r now).2) :
    ∃ refusal, w.decide r now = .error refusal := by
  cases decided : w.decide r now with
  | error refusal => exact ⟨refusal, rfl⟩
  | ok ledger =>
    have hserves := hs.serving_of_decided decided
    have hopened : w.opened.decide r now = w.decide r now := rfl
    have hsubmit : w.submit r now = (w.opened.reserved r ledger).acquire w.calls r now := by
      rw [submit, hopened, decided]
    rcases acquire_not_refused (w := w.opened.reserved r ledger) hserves.isOpen hserves.accepts
      w.calls r now with hnone | hok
    · simp [hsubmit, hnone] at told
    · simp [hsubmit, hok] at told

theorem TurnsAway.of_decide (remains : w.dropped = false) {e : Event} {r : TaskRequest}
    {now : Nat} {refusal : Refusal} (asked : e.request? = some (r, now))
    (against : w.decide r now = .error refusal) : w.TurnsAway e := by
  refine ⟨?_, .inl ⟨refusal, ?_⟩⟩
  · cases e with
    | submit | message => rfl
    | _ => cases asked
  · rw [step_request remains asked, submit_of_error against]
    exact List.mem_singleton_self _

theorem TurnsAway.of_response (remains : w.dropped = false) {m : AgentMessage} {freshId : String}
    {response : AdmissionResponse} (unread : (m.dispatch freshId).response? = some response)
    (now : Nat) : w.TurnsAway (.message m freshId now) := by
  refine ⟨rfl, .inr ⟨response, ?_⟩⟩
  rw [step, if_neg (by simp [remains]), message_of_response unread]
  exact List.mem_singleton_self _

theorem TurnsAway.dismissal {e : Event} (h : w.TurnsAway e) (hs : w.Switched) :
    w.Dismissal e (w.step e) := by
  have remains : w.dropped = false := by
    cases hdropped : w.dropped with
    | false => rfl
    | true =>
      have hbrings := h.brings
      have htold := h.told
      cases e with
      | submit | message => simp [step, hdropped] at htold
      | _ => cases hbrings
  cases asked : e.request? with
  | some q =>
    have htold := h.told
    rw [step_request remains asked] at htold ⊢
    obtain ⟨refusal, against⟩ := submit_turned_away hs htold
    rw [submit_of_error against]
    exact .refused asked against
  | none =>
    have hbrings := h.brings
    cases e with
    | submit r now => cases asked
    | message m freshId now =>
      obtain ⟨response, unread⟩ : ∃ response, (m.dispatch freshId).response? = some response := by
        rw [Event.request?] at asked
        cases dispatched : m.dispatch freshId with
        | request r => simp [dispatched] at asked
        | malformed | unhandled => exact ⟨_, rfl⟩
      rw [step, if_neg (by simp [remains]), message_of_response unread]
      exact .responded now unread
    | _ => cases hbrings

theorem launch_calls (w : Worker) (call : Token) (r : TaskRequest) (now : Nat) :
    (w.launch call r now).1.calls = w.calls := by
  rw [launch]
  split
  · obtain ⟨freeSlots, waiters, hend⟩ := w.endTicket_fst r true
    rw [Change.next_fst, hend]
    rfl
  · rfl

theorem submit_calls (w : Worker) (r : TaskRequest) (now : Nat) :
    (w.submit r now).1.calls = w.calls + 1 := by
  rw [submit]
  split
  · rfl
  · rename_i ledger decided
    rw [acquire]
    split
    · obtain ⟨freeSlots, waiters, hend⟩ := (w.opened.reserved r ledger).endTicket_fst r false
      rw [Change.next_fst, hend]
      rfl
    · split
      · exact launch_calls _ _ _ _
      · rfl

theorem resume_calls (w : Worker) (call : Token) (now : Nat) :
    (w.resume call now).1.calls = w.calls := by
  rw [Worker.resume]
  split
  · rfl
  · rename_i v found
    split
    · obtain ⟨freeSlots, waiters, hleave⟩ := w.leave_fst v v.request
      rw [Change.next_fst, hleave]
      rfl
    · split
      · exact launch_calls _ _ _ _
      · rfl

theorem turn_calls (w : Worker) (t : Token) (body : BodyTurn) (expired : Bool)
    (elapsed : Duration) : (w.turn t body expired elapsed).1.calls = w.calls := by
  have hcancelled : ∀ c, (w.cancelledIf c t).calls = w.calls := fun c => by cases c <;> rfl
  rw [turn]
  split
  · rfl
  · rename_i x found
    dsimp only
    split
    · rename_i o decided
      obtain ⟨freeSlots, waiters, hfinish⟩ := finish_fst (w.cancelledIf _ t) x o elapsed
      rw [Change.next_fst, hfinish]
      exact hcancelled _
    · exact hcancelled _

theorem step_calls (w : Worker) (e : Event) :
    (w.step e).1.calls = if w.makesCall e then w.calls + 1 else w.calls := by
  have haside : ∀ {c : Change}, Aside w c → c.1.calls = w.calls := fun {c} ha =>
    (congrArg Worker.calls ha.core :)
  cases e with
  | submit r now =>
    cases hdropped : w.dropped with
    | true => simp [step, makesCall, hdropped]
    | false => simp [step, makesCall, hdropped, submit_calls]
  | message m freshId now =>
    cases hdropped : w.dropped with
    | true => simp [step, makesCall, hdropped]
    | false =>
      simp only [step, makesCall, hdropped, message]
      cases m.dispatch freshId with
      | request r => simp [submit_calls]
      | malformed fault => simp [numbered]
      | unhandled => simp [numbered]
  | resume call now => exact w.resume_calls call now
  | abandon call =>
    simp only [step, Worker.abandon, makesCall]
    split
    · rfl
    · rename_i v found
      obtain ⟨freeSlots, waiters, hleave⟩ := w.leave_fst v v.request
      rw [Change.next_fst, hleave]
      rfl
  | turn t body expired elapsed => exact w.turn_calls t body expired elapsed
  | reportEnded t delivered => exact haside (w.reportEnded_aside t delivered)
  | shutdown =>
    cases hdropped : w.dropped with
    | true => simp [step, makesCall, hdropped]
    | false =>
      obtain ⟨drains, hshutdown⟩ := w.shutdown_fst
      rw [step_shutdown hdropped, hshutdown]
      simp [makesCall, hdropped]
  | resumeDrain call => exact haside (w.resumeDrain_aside call)
  | drop =>
    have hroll := rollView.drop_eq stop_roll w
    exact (congrArg (fun c => c.1.calls) hroll :)

end Worker

/-- The number of a call when those that are gone are not counted. -/
def rank (gone : List Token) (call : Token) : Token := Nat.count (fun n => n ∉ gone) call

section Rank

variable {gone : List Token} {call : Token}

theorem rank_succ_of_mem (h : call ∈ gone) : rank gone (call + 1) = rank gone call :=
  Nat.count_succ_eq_count_iff.2 (not_not_intro h)

theorem rank_succ_of_not_mem (h : call ∉ gone) : rank gone (call + 1) = rank gone call + 1 :=
  Nat.count_succ_eq_succ_count_iff.2 h

theorem spared_infinite (gone : List Token) : (Set.ofPred fun n : Token => n ∉ gone).Infinite :=
  gone.finite_toSet.infinite_compl

end Rank

def Notice.spared? (gone : List Token) (n : Notice) : Option Notice :=
  if n.call?.any (· ∈ gone) then none else some (n.renumber (rank gone))

def Notice.refuses (gone : List Token) : Notice → Bool
  | .answered call (.error _) => call ∈ gone
  | _ => false

theorem Notice.call?_renumber (g : Token → Token) (n : Notice) :
    (n.renumber g).call? = n.call?.map g := by
  cases n <;> rfl

theorem Notice.renumber_cancel {f g : Token → Token} (h : ∀ t, f (g t) = t) (n : Notice) :
    (n.renumber g).renumber f = n := by
  cases n <;> simp [Notice.renumber, h]

theorem Event.renumber_cancel {f g : Token → Token} {e : Event}
    (h : ∀ c, e.call? = some c → f (g c) = c) : (e.renumber g).renumber f = e := by
  cases e with
  | submit | message | shutdown | drop => rfl
  | _ => simp [renumber, h _ rfl]

namespace Recast

section Absent

variable {α : Type} (key : α → Token) (f : α → α) {g : Token → Token}

theorem find?_map_absent {k : Token} (absent : ∀ t, g t ≠ k) (hf : ∀ a, key (f a) = g (key a))
    (as : List α) : ((as.map f).find? fun a => key a = k) = none := by
  simp [List.find?_eq_none, hf, absent]

end Absent

theorem step_absent (ρ : Recast) (u : Worker) {e : Event} {call : Token}
    (about : e.call? = some call) (absent : ∀ t, ρ.number t ≠ call) :
    (ρ.worker u).step e = (ρ.worker u, []) := by
  have hwaiter : (ρ.worker u).waiter? call = none :=
    find?_map_absent Waiter.call ρ.waiter absent (fun _ => rfl) u.waiters
  have hexecution : (ρ.worker u).execution? call = none :=
    find?_map_absent Execution.token ρ.execution absent (fun _ => rfl) u.running
  have hdrain : ((ρ.worker u).drains.find? fun d => d.call = call) = none :=
    find?_map_absent Drain.call ρ.drain absent (fun _ => rfl) u.drains
  have hreport : (ρ.worker u).reporting.contains call = false := by
    simp [worker, absent]
  cases e with
  | submit | message | shutdown | drop => cases about
  | resume c now =>
    obtain rfl := Option.some.inj about
    rw [Worker.step, Worker.resume, hwaiter]
  | abandon c =>
    obtain rfl := Option.some.inj about
    rw [Worker.step, Worker.abandon, hwaiter]
  | turn c body expired elapsed =>
    obtain rfl := Option.some.inj about
    rw [Worker.step, Worker.turn, hexecution]
  | reportEnded c delivered =>
    obtain rfl := Option.some.inj about
    rw [Worker.step, Worker.reportEnded, hreport, if_neg Bool.false_ne_true]
  | resumeDrain c =>
    obtain rfl := Option.some.inj about
    rw [Worker.step, Worker.resumeDrain, hdrain]

noncomputable def omitting (gone : List Token) (calls refused : Nat) : Recast where
  number := Nat.nth fun n => n ∉ gone
  injective := Nat.nth_injective (spared_infinite gone)
  priority _ p := p
  payload _ p := p
  calls
  refused := .ofNat refused

section Omitting

variable (gone : List Token) (calls refused : Nat)

theorem omitting_not_mem (call : Token) : (omitting gone calls refused).number call ∉ gone :=
  Nat.nth_mem_of_infinite (spared_infinite gone) call

theorem rank_omitting (call : Token) :
    rank gone ((omitting gone calls refused).number call) = call :=
  Nat.count_nth_of_infinite (spared_infinite gone) call

theorem omitting_rank {gone : List Token} {call : Token} (h : call ∉ gone) :
    (omitting gone calls refused).number (rank gone call) = call :=
  Nat.nth_count h

theorem reject_omitting (u : Worker) (refusal : Refusal) :
    (((omitting gone calls refused).worker u).opened.reject calls refusal).1 =
      (omitting gone (calls + 1) (refused + 1)).worker u := by
  have hmore : ∀ n : UInt64, n + .ofNat refused + 1 = n + .ofNat (refused + 1) := fun n => by
    rw [UInt64.ofNat_add, UInt64.add_assoc]
    rfl
  simp only [Worker.reject, Worker.opened, Worker.numbered, Worker.withTotals, worker, totals,
    omitting, hmore]
  rfl

theorem spared?_omitting (n : Notice) :
    (n.renumber (omitting gone calls refused).number).spared? gone = some n := by
  have hspared : ((n.renumber (omitting gone calls refused).number).call?.any (· ∈ gone)) =
      false := by
    rw [Notice.call?_renumber]
    cases n.call? with
    | none => rfl
    | some call => simpa using omitting_not_mem gone calls refused call
  rw [Notice.spared?, if_neg (by simp [hspared]),
    Notice.renumber_cancel (rank_omitting gone calls refused)]

theorem not_refuses_omitting (n : Notice) :
    (n.renumber (omitting gone calls refused).number).refuses gone = false := by
  rcases n with ⟨call, _ | _⟩ | _ | _ | _ | _ | _ | _ | _ | _ | _ | _
  · exact decide_eq_false (omitting_not_mem gone calls refused call)
  all_goals rfl

theorem like_omitting (call : Token) (e : Event) :
    (omitting gone calls refused).Like call e
      (e.renumber (omitting gone calls refused).number) := by
  cases e with
  | submit r now => exact .submit r now
  | message m freshId now =>
    refine .message now ?_
    cases m.dispatch freshId <;> rfl
  | resume c now => exact .resume c now
  | abandon c => exact .abandon c
  | turn c body expired elapsed => exact .turn c body expired elapsed
  | reportEnded c delivered => exact .reportEnded c delivered
  | shutdown => exact .shutdown
  | resumeDrain c => exact .resumeDrain c
  | drop => exact .drop

theorem like_rank {gone : List Token} {e : Event} (call : Token)
    (kept : ∀ c, e.call? = some c → c ∉ gone) :
    (omitting gone calls refused).Like call (e.renumber (rank gone)) e := by
  have hcancel := Event.renumber_cancel fun c about =>
    omitting_rank calls refused (kept c about)
  have hlike := like_omitting gone calls refused call (e.renumber (rank gone))
  rwa [hcancel] at hlike

end Omitting

end Recast

def refusals (gone : List Token) (notices : List Notice) : Nat :=
  notices.countP (Notice.refuses gone)

namespace Worker

/-- What a worker would be without the calls that are gone, so many of which were refused: the other
calls are numbered through. -/
def without (gone : List Token) (refused : Nat) (w : Worker) : Worker :=
  { w with
    registry := ⟨w.registry.waiting,
      w.registry.running.map fun h => { h with token := rank gone h.token }⟩
    cancelled := w.cancelled.map (rank gone)
    totals := { w.totals with
      submitted := w.totals.submitted - .ofNat refused
      rejected := w.totals.rejected - .ofNat refused }
    calls := rank gone w.calls
    waiters := w.waiters.map fun v => { v with call := rank gone v.call }
    running := w.running.map fun x => { x with token := rank gone x.token }
    reporting := w.reporting.map (rank gone)
    drains := w.drains.map fun d => { d with call := rank gone d.call } }

theorem without_status? (gone : List Token) (refused : Nat) (w : Worker) (now : Nat)
    (taskId : String) : (w.without gone refused).status? now taskId = w.status? now taskId := by
  simp only [status?, Registry.status?, without, Table.get?_map]
  cases w.registry.running.get? taskId <;> rfl

theorem without_snapshot (gone : List Token) (refused : Nat) (w : Worker) :
    (w.without gone refused).snapshot = { w.snapshot with totals := { w.totals with
      submitted := w.totals.submitted - .ofNat refused
      rejected := w.totals.rejected - .ofNat refused } } := by
  have hactive : (w.without gone refused).registry.activeCount = w.registry.activeCount :=
    List.length_map _
  rw [snapshot, hactive]
  rfl

theorem without_omitting {gone : List Token} {calls : Nat} {u : Worker}
    (numbers : rank gone calls = u.calls) (refused : Nat) :
    ((Recast.omitting gone calls refused).worker u).without gone refused = u := by
  have hrank := Recast.rank_omitting gone calls refused
  have hrunning : ((Recast.omitting gone calls refused).registry u.registry).running.map
      (fun h => { h with token := rank gone h.token }) = u.registry.running := by
    refine Table.ext_get? fun name => ?_
    simp only [Recast.registry, Table.get?_map, Option.map_map]
    cases u.registry.running.get? name with
    | none => rfl
    | some h => exact congrArg (fun t => some { h with token := t }) (hrank h.token)
  have hnumbers := Function.LeftInverse.list_map hrank
  have hwaiters := Function.LeftInverse.list_map
    (f := fun v : Waiter => { v with call := rank gone v.call })
    (g := (Recast.omitting gone calls refused).waiter)
    fun v => congrArg (fun c => { v with call := c }) (hrank v.call)
  have hexecutions := Function.LeftInverse.list_map
    (f := fun x : Execution => { x with token := rank gone x.token })
    (g := (Recast.omitting gone calls refused).execution)
    fun x => congrArg (fun t => { x with token := t }) (hrank x.token)
  have hdrains := Function.LeftInverse.list_map
    (f := fun d : Drain => { d with call := rank gone d.call })
    (g := (Recast.omitting gone calls refused).drain)
    fun d => congrArg (fun c => { d with call := c }) (hrank d.call)
  have hrefused : (Recast.omitting gone calls refused).refused = .ofNat refused := rfl
  have hcalls : rank gone (Recast.omitting gone calls refused).calls = u.calls := numbers
  simp only [without, Recast.worker, Recast.totals, hrefused, hcalls, UInt64.add_sub_cancel,
    hrunning, hnumbers u.cancelled, hnumbers u.reporting, hwaiters u.waiters,
    hexecutions u.running, hdrains u.drains]
  rfl

def callOf? (w : Worker) (e : Event) : Option Token :=
  if w.makesCall e then some w.calls else e.call?

theorem makesCall_of_call? {w : Worker} {e : Event} {call : Token} (about : e.call? = some call) :
    w.makesCall e = false := by
  cases e with
  | submit | message | shutdown | drop => cases about
  | _ => rfl

theorem callOf?_of_makesCall {w : Worker} {e : Event} (made : w.makesCall e = true) :
    w.callOf? e = some w.calls :=
  if_pos made

theorem callOf?_of_call? {w : Worker} {e : Event} {call : Token} (about : e.call? = some call) :
    w.callOf? e = some call := by
  rw [callOf?, if_neg (by simp [makesCall_of_call? about]), about]

/-- Of the calls that a run makes, those that are gone are turned away. -/
def Omits (gone : List Token) : Worker → List Event → Prop
  | _, [] => True
  | w, e :: rest =>
    (w.makesCall e = true → w.calls ∈ gone → w.TurnsAway e) ∧ Omits gone (w.step e).1 rest

def thin (gone : List Token) (w : Worker) (e : Event) : List Event :=
  if (w.callOf? e).any (· ∈ gone) then [] else [e.renumber (rank gone)]

def thinned (gone : List Token) : Worker → List Event → List Event
  | _, [] => []
  | w, e :: rest => w.thin gone e ++ thinned gone (w.step e).1 rest

end Worker

structure Thins (gone : List Token) (refused : Nat) (w u : Worker) : Prop where
  calls : u.calls = rank gone w.calls
  worker : w = (Recast.omitting gone w.calls refused).worker u

namespace Thins

variable {gone : List Token} {refused : Nat} {w u : Worker}

theorem eq_without (h : Thins gone refused w u) : u = w.without gone refused := by
  rw [h.worker]
  exact (Worker.without_omitting h.calls.symm refused).symm

theorem turned_away (h : Thins gone refused w u) (hs : w.Switched) {e : Event}
    (turned : w.TurnsAway e) (mem : w.calls ∈ gone) :
    Thins gone (refused + refusals gone (w.step e).2) (w.step e).1 u ∧
      (w.step e).2.filterMap (Notice.spared? gone) = [] := by
  have hcalls : u.calls = rank gone (w.calls + 1) := h.calls.trans (rank_succ_of_mem mem).symm
  have hdismissal := turned.dismissal hs
  generalize w.step e = c at hdismissal ⊢
  cases hdismissal with
  | @refused _ _ _ refusal _ _ =>
    have hone : refusals gone [.answered w.calls (.error refusal)] = 1 := by
      simp [refusals, Notice.refuses, mem]
    have hreject := Recast.reject_omitting gone w.calls refused u refusal
    rw [← h.worker] at hreject
    rw [hone]
    exact ⟨⟨hcalls, hreject⟩, by simp [Notice.spared?, Notice.call?, mem]⟩
  | responded now _ =>
    have hnumbered := congrArg Worker.numbered h.worker
    exact ⟨⟨hcalls, hnumbered⟩, by simp [Notice.spared?, Notice.call?, mem]⟩

theorem absent (h : Thins gone refused w u) {e : Event} {call : Token}
    (about : e.call? = some call) (mem : call ∈ gone) : w.step e = (w, []) := by
  rw [h.worker]
  exact Recast.step_absent _ u about fun t ht =>
    Recast.omitting_not_mem gone w.calls refused t (ht ▸ mem)

theorem kept (h : Thins gone refused w u) {e : Event}
    (spared : ∀ c, w.callOf? e = some c → c ∉ gone) :
    Thins gone (refused + refusals gone (w.step e).2) (w.step e).1
        (u.step (e.renumber (rank gone))).1 ∧
      (w.step e).2.filterMap (Notice.spared? gone) = (u.step (e.renumber (rank gone))).2 := by
  have hdropped : u.dropped = w.dropped := (congrArg Worker.dropped h.worker :).symm
  have hmakes : u.makesCall (e.renumber (rank gone)) = w.makesCall e := by
    cases e <;> simp [Worker.makesCall, Event.renumber, hdropped]
  have hmade : w.makesCall e = true → w.calls ∉ gone := fun made =>
    spared _ (Worker.callOf?_of_makesCall made)
  have hlike := Recast.like_rank w.calls refused u.calls fun c about =>
    spared c (Worker.callOf?_of_call? about)
  have hstep := Recast.step _ hlike fun made => by
    rw [h.calls]
    exact (Recast.omitting_rank w.calls refused (hmade (hmakes ▸ made))).symm
  have hafter : (Recast.omitting gone w.calls refused).after (w.makesCall e) =
      Recast.omitting gone (w.step e).1.calls refused := by
    rw [Worker.step_calls]
    cases w.makesCall e <;> rfl
  rw [← h.worker, hmakes, hafter] at hstep
  have hnotices := congrArg Prod.snd hstep
  simp only [Recast.change] at hnotices
  -- what the step tells is about numbers that the recasting gives, and none of these is gone
  have hnone : refusals gone (w.step e).2 = 0 := by
    rw [hnotices, refusals, List.countP_map, List.countP_eq_zero]
    intro n _
    simp [Recast.not_refuses_omitting]
  refine ⟨⟨?_, ?_⟩, ?_⟩
  · rw [Worker.step_calls, Worker.step_calls, hmakes, h.calls]
    split
    · rename_i made
      exact (rank_succ_of_not_mem (hmade made)).symm
    · rfl
  · rw [hnone]
    exact congrArg Prod.fst hstep
  · rw [hnotices, List.filterMap_map]
    simp [Recast.spared?_omitting]

theorem step (h : Thins gone refused w u) (hs : w.Switched) {e : Event}
    (omits : w.makesCall e = true → w.calls ∈ gone → w.TurnsAway e) :
    Thins gone (refused + refusals gone (w.step e).2) (w.step e).1 (u.run (w.thin gone e)).1 ∧
      (w.step e).2.filterMap (Notice.spared? gone) = (u.run (w.thin gone e)).2 := by
  by_cases hgone : (w.callOf? e).any (· ∈ gone)
  · obtain ⟨c, about, mem⟩ := (Option.any_eq_true _ _).1 hgone
    rw [decide_eq_true_eq] at mem
    rw [Worker.thin, if_pos hgone]
    cases made : w.makesCall e with
    | true =>
      obtain rfl := Option.some.inj ((Worker.callOf?_of_makesCall made).symm.trans about)
      exact h.turned_away hs (omits made mem) mem
    | false =>
      rw [Worker.callOf?, if_neg (by simp [made])] at about
      rw [h.absent about mem]
      exact ⟨h, rfl⟩
  · have hspared : ∀ c, w.callOf? e = some c → c ∉ gone := fun c about mem =>
      hgone ((Option.any_eq_true _ _).2 ⟨c, about, decide_eq_true mem⟩)
    obtain ⟨hthins, hnotices⟩ := h.kept hspared
    rw [Worker.thin, if_neg hgone]
    exact ⟨hthins, hnotices.trans (List.append_nil _).symm⟩

theorem run (h : Thins gone refused w u) (hs : w.Switched) {events : List Event}
    (omits : w.Omits gone events) :
    Thins gone (refused + refusals gone (w.run events).2) (w.run events).1
        (u.run (w.thinned gone events)).1 ∧
      (w.run events).2.filterMap (Notice.spared? gone) = (u.run (w.thinned gone events)).2 := by
  induction events generalizing w u refused with
  | nil => exact ⟨h, rfl⟩
  | cons e rest ih =>
    obtain ⟨hnow, hlater⟩ := omits
    obtain ⟨hstep, hnotices⟩ := h.step hs hnow
    -- the other worker takes the step too, or stays where it is
    obtain ⟨hrun, hrest⟩ := ih hstep (Worker.step_switched hs e) hlater
    have happend := u.run_append (w.thin gone e) ((w.step e).1.thinned gone rest)
    rw [Worker.thinned, happend, Worker.run, Change.next_snd, refusals, List.countP_append,
      ← Nat.add_assoc, List.filterMap_append, hnotices]
    exact ⟨hrun, congrArg _ hrest⟩

end Thins

namespace Worker

theorem start_thins {meter : Meter} {config : Config} {w : Worker}
    (h : start meter config = .ok w) (gone : List Token) : Thins gone 0 w w := by
  rw [start_eq h]
  exact ⟨(Nat.count_zero _).symm, rfl⟩

/-- What is turned away changes nothing but the counters of submissions and refusals, and those only
if it was a submission. Where any calls that were turned away are left out of a run, with what is
about them, the same happens to the others and comes of it, up to these counters. -/
theorem run_thinned {meter : Meter} {config : Config} {w : Worker}
    (h : start meter config = .ok w) (events : List Event) :
    (∀ e, (w.run events).1.TurnsAway e →
      (w.run events).1.Dismissal e ((w.run events).1.step e)) ∧
    ∀ gone, w.Omits gone events →
      w.run (w.thinned gone events) =
        ((w.run events).1.without gone (refusals gone (w.run events).2),
          (w.run events).2.filterMap (Notice.spared? gone)) ∧
      (w.run (w.thinned gone events)).1.ledger = (w.run events).1.ledger ∧
      (∀ now taskId, (w.run (w.thinned gone events)).1.status? now taskId =
        (w.run events).1.status? now taskId) ∧
      (w.run (w.thinned gone events)).1.snapshot = { (w.run events).1.snapshot with
        totals := { (w.run events).1.totals with
          submitted := (w.run events).1.totals.submitted -
            .ofNat (refusals gone (w.run events).2)
          rejected := (w.run events).1.totals.rejected -
            .ofNat (refusals gone (w.run events).2) } } := by
  refine ⟨fun e turned => turned.dismissal (run_switched (start_switched h) events),
    fun gone omits => ?_⟩
  obtain ⟨hthins, hnotices⟩ := (start_thins h gone).run (start_switched h) omits
  rw [Nat.zero_add] at hthins
  have hwithout := hthins.eq_without
  refine ⟨Prod.ext hwithout hnotices.symm, ?_, fun now taskId => ?_, ?_⟩
  · rw [hwithout]
    rfl
  · rw [hwithout, without_status?]
  · rw [hwithout, without_snapshot]

theorem run_thinned_two : ∃ w, start .millionths (.standard "w") = .ok w ∧ ∃ events,
    events = [.submit (.new "a" .null) 0, .submit (.new "a" .null) 0,
      .message ⟨"Ping", .null, none⟩ "x" 0, .submit (.new "b" .null) 0,
      .turn 3 ⟨false, some (.completed .empty)⟩ false .zero] ∧
    w.Omits [1, 2] events ∧
    w.thinned [1, 2] events = [.submit (.new "a" .null) 0, .submit (.new "b" .null) 0,
      .turn 1 ⟨false, some (.completed .empty)⟩ false .zero] ∧
    w.run [.submit (.new "a" .null) 0, .submit (.new "b" .null) 0,
        .turn 1 ⟨false, some (.completed .empty)⟩ false .zero] =
      ((w.run events).1.without [1, 2] 1, (w.run events).2.filterMap (Notice.spared? [1, 2])) := by
  refine ⟨_, rfl, _, rfl, ?_⟩
  obtain ⟨-, hthinned⟩ := run_thinned (show start .millionths (.standard "w") = .ok _ from rfl)
    [.submit (.new "a" .null) 0, .submit (.new "a" .null) 0,
      .message ⟨"Ping", .null, none⟩ "x" 0, .submit (.new "b" .null) 0,
      .turn 3 ⟨false, some (.completed .empty)⟩ false .zero]
  refine ⟨?omits, rfl, (hthinned [1, 2] ?omits).1⟩
  refine ⟨fun _ mem => absurd mem (by decide), fun _ _ => .of_decide rfl rfl rfl,
    fun _ _ => .of_response rfl rfl 0, fun _ mem => absurd mem (by decide), nofun, trivial⟩

end Worker

end BoundedWorker
