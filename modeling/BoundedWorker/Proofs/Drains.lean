import BoundedWorker.Proofs.Closing
import BoundedWorker.Proofs.Idle
import BoundedWorker.Proofs.Reports

/-!
Drains. A shutdown waits for the executions and their reports, and then for the reservations. What
it is to return is fixed when it is called, and is due until it returns. A drain that sleeps waits
for something that has not come about, so nobody sleeps once all is done; and whatever has returned,
has returned from a worker where all is done and stays so.
-/

namespace BoundedWorker

def Notice.return? : Notice → Option (Token × Nat)
  | .returned call n => some (call, n)
  | _ => none

def returns (notices : List Notice) : List (Token × Nat) := notices.filterMap Notice.return?

@[simp] theorem returns_append (earlier later : List Notice) :
    returns (earlier ++ later) = returns earlier ++ returns later :=
  List.filterMap_append ..

@[simp] theorem returns_nil : returns [] = [] := rfl

theorem mem_returns {notices : List Notice} {call : Token} {n : Nat} :
    (call, n) ∈ returns notices ↔ .returned call n ∈ notices := by
  rw [returns, List.mem_filterMap]
  constructor
  · rintro ⟨m, hm, hreturn⟩
    cases m <;> simp_all [Notice.return?]
  · exact fun h => ⟨_, h, rfl⟩

theorem returns_map {α : Type} {f : α → Notice} (h : ∀ a, (f a).return? = none) (as : List α) :
    returns (as.map f) = [] := by
  simp [returns, h]

namespace Worker

def issue (w : Worker) : Event → List (Token × Nat)
  | .shutdown =>
    if w.dropped then [] else [(w.calls, if w.accepting then w.registry.activeCount else 0)]
  | _ => []

def issued (w : Worker) : List Event → List (Token × Nat)
  | [] => []
  | e :: rest => w.issue e ++ (w.step e).1.issued rest

variable (w : Worker)

theorem returnSlot_returns : returns w.returnSlot.2 = [] := by
  rw [returnSlot]
  split
  · rfl
  · split <;> rfl

theorem wakeDrains_returns (stage : DrainStage) : returns (w.wakeDrains stage).2 = [] :=
  returns_map (fun _ => rfl) _

theorem endTicket_returns (r : TaskRequest) (slot : Bool) :
    returns (w.endTicket r slot).2 = [] := by
  have hnote : ∀ w : Worker, returns w.noteIdle.2 = [] := by
    intro w
    rw [noteIdle]
    split
    · exact w.wakeDrains_returns _
    · rfl
  have hrelease : returns (w.releaseResources r).2 = [] := returns_map (fun _ => rfl) _
  simp only [endTicket, Change.next_snd, returns_append, hnote, hrelease, List.nil_append,
    List.append_nil]
  cases slot with
  | true => exact returnSlot_returns _
  | false => rfl

theorem leave_returns (v : Waiter) (r : TaskRequest) :
    returns ((w.leaveQueue v).next fun w => w.endTicket r false).2 = [] := by
  have hleave : returns (w.leaveQueue v).2 = [] := by
    rw [leaveQueue]
    split
    · exact returnSlot_returns _
    · rfl
  simp only [Change.next_snd, returns_append, hleave, endTicket_returns, List.append_nil]

theorem finish_returns (x : Execution) (o : Outcome) (elapsed : Duration) :
    returns (w.finish x o elapsed).2 = [] := by
  simp only [finish, Change.next_snd, returns_append, endTicket_returns, List.nil_append]
  rfl

theorem beginning_returns (x : Execution) (v : Verdict) : returns (beginning x v) = [] := by
  rw [beginning]
  split <;> rfl

theorem stop_returns : returns w.stop.2 = [] := by
  have hwoken : returns ((w.waiters.filter fun v => !v.granted).map fun v =>
      Notice.woken v.call) = [] := returns_map (fun _ => rfl) _
  have hroused : returns (w.running.map fun x => Notice.roused x.token) = [] :=
    returns_map (fun _ => rfl) _
  simp only [stop, returns_append]
  split <;> split <;> simp only [hwoken, hroused, returns_nil, List.append_nil]

theorem settled_drains (r : TaskRequest) (freeSlots : Nat) (waiters : List Waiter) :
    ∃ f : Drain → Drain, (w.settled r freeSlots waiters).drains = w.drains.map f ∧
      ∀ d, (f d).call = d.call ∧ (f d).cancelled = d.cancelled ∧ (f d).stage = d.stage := by
  rw [settled]
  split
  · exact ⟨Drain.wake .reservations, rfl, fun d => by simp⟩
  · exact ⟨fun d => d, (List.map_id' _).symm, fun d => ⟨rfl, rfl, rfl⟩⟩

theorem reportEnded_returns (t : Token) (delivered : Bool) :
    returns (w.reportEnded t delivered).2 = [] := by
  have hnote : ∀ w : Worker, returns w.noteDone.2 = [] := by
    intro w
    rw [noteDone]
    split
    · exact w.wakeDrains_returns _
    · rfl
  rw [reportEnded]
  split
  · exact hnote _
  · rfl

theorem advanceDrain_dues (d : Drain) :
    (returns (w.advanceDrain d).2 ++ (w.advanceDrain d).1.dues).Perm
      (w.dues ++ [(d.call, d.cancelled)]) := by
  rw [advanceDrain]
  split
  · simp [dues, returns]
  · split
    · exact (List.perm_append_singleton _ _).symm
    · simp [dues, returns]

theorem shutdown_dues : (returns w.shutdown.2 ++ w.shutdown.1.dues).Perm
    (w.dues ++ [(w.calls, if w.accepting then w.registry.activeCount else 0)]) := by
  have hcount : (if w.accepting then w.registry.tokens else []).length =
      if w.accepting then w.registry.activeCount else 0 := by
    split
    · exact List.length_map _
    · rfl
  rw [shutdown, Change.next_fst, Change.next_snd, returns_append, stop_returns, List.nil_append,
    ← hcount]
  exact advanceDrain_dues _ _

variable {w : Worker}

theorem step_returns_nil {e : Event} (keeps : e.mayReturn = false) :
    returns (w.step e).2 = [] := by
  have heffect := w.step_effect e
  generalize w.step e = change at heffect ⊢
  cases heffect with
  | idle | respond | refuse | queue | launch | resume => rfl
  | turnAway | overtake =>
    rw [Change.next_snd, returns_append, endTicket_returns]
    rfl
  | closeOut | abandon =>
    rw [Change.next_snd, returns_append, leave_returns]
    rfl
  | carryOn =>
    rw [returns_append, beginning_returns]
    split <;> rfl
  | finish =>
    rw [Change.next_snd, returns_append, beginning_returns, finish_returns]
    rfl
  | reportEnded t delivered => exact w.reportEnded_returns t delivered
  | shutdown | resumeDrain => cases keeps
  | drop =>
    rw [Worker.drop]
    split
    · rfl
    · split
      · rfl
      · exact stop_returns _

theorem step_dues_eq {e : Event} (keeps : e.mayReturn = false) : (w.step e).1.dues = w.dues := by
  have hother : e.maySwitch = false → (w.step e).1.dues = w.dues := fun keeps =>
    congrArg Switches.dues (step_switches keeps)
  cases e with
  | shutdown | resumeDrain => cases keeps
  | drop =>
    rw [step, Worker.drop]
    split
    · rfl
    · split <;> rfl
  | _ => exact hother rfl

def reached (w : Worker) : DrainStage → Bool
  | .executions => w.executionsDone
  | .reservations => w.registry.isEmpty

/-- A drain that sleeps waits for something that has not come about. -/
structure Attended (w : Worker) : Prop where
  calls_lt : ∀ d ∈ w.drains, d.call < w.calls
  calls_nodup : (w.drains.map Drain.call).Nodup
  past : ∀ d ∈ w.drains, d.stage = .reservations → w.executionsDone = true
  awake : ∀ d ∈ w.drains, d.woken = false → w.reached d.stage = false

/-- Nothing waits or runs, and every report has been made. -/
structure Done (w : Worker) : Prop where
  executions : w.executionsDone = true
  registry : w.registry.isEmpty = true

theorem advanceDrain_cases (w : Worker) (d : Drain)
    (past : d.stage = .reservations → w.executionsDone = true) :
    (∃ stage, w.reached stage = false ∧ (stage = .reservations → w.executionsDone = true) ∧
        w.advanceDrain d =
          ({ w with drains := w.drains ++ [{ d with stage, woken := false }] }, [])) ∨
      w.Done ∧ w.advanceDrain d = (w, [.returned d.call d.cancelled]) := by
  obtain ⟨call, cancelled, stage, woken⟩ := d
  cases hdone : w.executionsDone with
  | false =>
    cases stage with
    | executions => exact .inl ⟨.executions, hdone, nofun, by simp [advanceDrain, hdone]⟩
    | reservations => exact absurd (past rfl) (by simp [hdone])
  | true =>
    cases hidle : w.registry.isEmpty with
    | false =>
      exact .inl ⟨.reservations, hidle, fun _ => rfl, by simp [advanceDrain, hdone, hidle]⟩
    | true => exact .inr ⟨⟨hdone, hidle⟩, by simp [advanceDrain, hdone, hidle]⟩

namespace Attended

variable {w' : Worker}

theorem of_drains_nil (h : w.drains = []) : w.Attended := by
  refine ⟨?_, ?_, ?_, ?_⟩ <;> simp [h]

theorem mono (h : w.Attended) (drains : w'.drains = w.drains)
    (done : w'.executionsDone = w.executionsDone) (registry : w'.registry = w.registry)
    (calls : w.calls ≤ w'.calls) : w'.Attended := by
  have hreached : w'.reached = w.reached := by
    funext stage
    cases stage with
    | executions => exact done
    | reservations => exact congrArg Registry.isEmpty registry
  refine ⟨?_, ?_, ?_, ?_⟩
  · exact fun d hd => Nat.lt_of_lt_of_le (h.calls_lt d (drains ▸ hd)) calls
  · exact drains ▸ h.calls_nodup
  · exact fun d hd hstage => done.trans (h.past d (drains ▸ hd) hstage)
  · exact fun d hd hwoken => hreached ▸ h.awake d (drains ▸ hd) hwoken

theorem stage_eq (h : w.Attended) (busy : w.executionsDone = false) {d : Drain}
    (hd : d ∈ w.drains) : d.stage = .executions := by
  cases hstage : d.stage with
  | executions => rfl
  | reservations => exact absurd (h.past d hd hstage) (by simp [busy])

theorem of_busy (busy : w.executionsDone = false) (calls_lt : ∀ d ∈ w.drains, d.call < w.calls)
    (calls_nodup : (w.drains.map Drain.call).Nodup)
    (stage : ∀ d ∈ w.drains, d.stage = .executions) : w.Attended := by
  refine ⟨calls_lt, calls_nodup, fun d hd hstage => ?_, fun d hd _ => ?_⟩
  · cases hstage.symm.trans (stage d hd)
  · rw [stage d hd]
    exact busy

/-- A stage that is reached may be waited for until those who do are woken. -/
theorem wake {stage : DrainStage} (calls_lt : ∀ d ∈ w.drains, d.call < w.calls)
    (calls_nodup : (w.drains.map Drain.call).Nodup)
    (past : ∀ d ∈ w.drains, d.stage = .reservations → w.executionsDone = true)
    (others : ∀ d ∈ w.drains, d.woken = false → d.stage ≠ stage → w.reached d.stage = false) :
    Attended { w with drains := w.drains.map (Drain.wake stage) } := by
  have hnodup : ((w.drains.map (Drain.wake stage)).map Drain.call).Nodup := by
    simpa [Function.comp_def] using calls_nodup
  refine ⟨?_, hnodup, ?_, ?_⟩
  · intro d hd
    obtain ⟨u, hu, rfl⟩ := List.mem_map.1 hd
    exact (u.wake_call stage).symm ▸ calls_lt u hu
  · intro d hd hstage
    obtain ⟨u, hu, rfl⟩ := List.mem_map.1 hd
    exact past u hu ((u.wake_stage stage).symm.trans hstage)
  · intro d hd hwoken
    obtain ⟨u, hu, rfl⟩ := List.mem_map.1 hd
    by_cases hstage : u.stage = stage
    · simp [Drain.wake, hstage] at hwoken
    · rw [Drain.wake, if_neg hstage] at hwoken ⊢
      exact others u hu hwoken hstage

theorem settled (h : w.Attended) (r : TaskRequest) (freeSlots : Nat) (waiters : List Waiter) :
    (w.settled r freeSlots waiters).Attended := by
  cases hidle : (w.registry.remove r.taskId).1.isEmpty with
  | true =>
    have hsettled : w.settled r freeSlots waiters = { { w with
        ledger := (w.ledger.release r.required).1
        registry := (w.registry.remove r.taskId).1
        freeSlots
        waiters } with drains := w.drains.map (Drain.wake .reservations) } := by
      rw [Worker.settled, if_pos hidle]
    rw [hsettled]
    refine wake h.calls_lt h.calls_nodup h.past fun d hd hwoken hstage => ?_
    have hbefore := h.awake d hd hwoken
    cases hd' : d.stage with
    | executions => rwa [hd'] at hbefore
    | reservations => exact absurd hd' hstage
  | false =>
    rw [Worker.settled, if_neg (by simp [hidle])]
    refine ⟨h.calls_lt, h.calls_nodup, h.past, fun d hd hwoken => ?_⟩
    have hbefore := h.awake d hd hwoken
    cases hd' : d.stage with
    | executions => rwa [hd'] at hbefore
    | reservations => exact hidle

theorem finish (h : w.Attended) {x : Execution} (hx : x ∈ w.running) (o : Outcome)
    (elapsed : Duration) : (w.finish x o elapsed).1.Attended := by
  have hbusy : w.executionsDone = false := by
    cases hrunning : w.running with
    | nil => simp [hrunning] at hx
    | cons y rest => simp [executionsDone, hrunning]
  obtain ⟨freeSlots, waiters, hfinish⟩ := w.finish_fst x o elapsed
  obtain ⟨f, hdrains, hf⟩ := (w.ended x.token o).settled_drains x.request freeSlots waiters
  have hdrains' : (w.finish x o elapsed).1.drains = w.drains.map f := by
    rw [hfinish]
    exact hdrains
  have hcalls : (w.finish x o elapsed).1.calls = w.calls := by
    rw [hfinish]
    rfl
  refine of_busy ?_ ?_ ?_ ?_
  · rw [hfinish]
    simp [executionsDone, delivering]
  · intro d hd
    obtain ⟨u, hu, rfl⟩ := List.mem_map.1 (hdrains' ▸ hd)
    rw [(hf u).1, hcalls]
    exact h.calls_lt u hu
  · simpa [hdrains', Function.comp_def, hf] using h.calls_nodup
  · intro d hd
    obtain ⟨u, hu, rfl⟩ := List.mem_map.1 (hdrains' ▸ hd)
    exact (hf u).2.2.trans (h.stage_eq hbusy hu)

theorem reportEnded (h : w.Attended) (hs : w.Stopped) (t : Token) (delivered : Bool) :
    (w.reportEnded t delivered).1.Attended := by
  rw [Worker.reportEnded]
  split
  · rename_i hmem
    have hbusy : w.executionsDone = false := by
      cases hreporting : w.reporting with
      | nil => simp [hreporting] at hmem
      | cons u rest => simp [executionsDone, hreporting]
    have hstage : ∀ d ∈ w.drains, d.stage = .executions := fun d hd => h.stage_eq hbusy hd
    -- if this was the last report, those who wait for it are woken, and these are all
    have hnote : ∀ w' : Worker, w'.drains = w.drains → w'.calls = w.calls → w'.stopped = true →
        w'.noteDone.1.Attended := by
      intro w' drains calls stopped
      have hwake : (w'.stopped && w'.executionsDone) = w'.executionsDone := by simp [stopped]
      rw [noteDone_fst, hwake]
      have hlt : ∀ d ∈ w'.drains, d.call < w'.calls := by
        rw [drains, calls]
        exact h.calls_lt
      have hnodup : (w'.drains.map Drain.call).Nodup := drains ▸ h.calls_nodup
      cases hdone : w'.executionsDone with
      | true =>
        rw [if_pos rfl]
        refine wake hlt hnodup (fun d hd hd' => ?_) fun d hd _ hd' => ?_
        · exact hdone
        · exact absurd (hstage d (drains ▸ hd)) hd'
      | false => exact of_busy hdone hlt hnodup fun d hd => hstage d (drains ▸ hd)
    cases delivered with
    | true => exact hnote _ rfl rfl hs.cancels
    | false => exact hnote _ rfl rfl hs.cancels
  · exact h

theorem advance (h : w.Attended) {d : Drain} (lt : d.call < w.calls)
    (new : d.call ∉ w.drains.map Drain.call)
    (past : d.stage = .reservations → w.executionsDone = true) : (w.advanceDrain d).1.Attended := by
  rcases w.advanceDrain_cases d past with ⟨stage, hreached, hpast, hadvance⟩ | ⟨-, hadvance⟩
  · rw [hadvance]
    refine ⟨?_, ?_, ?_, ?_⟩
    · intro u hu
      rcases List.mem_append.1 hu with hu | hu
      · exact h.calls_lt u hu
      · obtain rfl := List.mem_singleton.1 hu
        exact lt
    · have hperm : (d.call :: w.drains.map Drain.call).Nodup :=
        List.nodup_cons.2 ⟨new, h.calls_nodup⟩
      simpa using (List.perm_append_singleton _ _).nodup_iff.2 hperm
    · intro u hu hstage
      rcases List.mem_append.1 hu with hu | hu
      · exact h.past u hu hstage
      · obtain rfl := List.mem_singleton.1 hu
        exact hpast hstage
    · intro u hu hwoken
      rcases List.mem_append.1 hu with hu | hu
      · exact h.awake u hu hwoken
      · obtain rfl := List.mem_singleton.1 hu
        exact hreached
  · rw [hadvance]
    exact h

theorem filter (h : w.Attended) (call : Token) :
    Attended { w with drains := w.drains.filter fun u => u.call ≠ call } :=
  ⟨fun d hd => h.calls_lt d (List.mem_filter.1 hd).1,
    h.calls_nodup.sublist (List.filter_sublist.map _),
    fun d hd => h.past d (List.mem_filter.1 hd).1, fun d hd => h.awake d (List.mem_filter.1 hd).1⟩

theorem shutdown (h : w.Attended) : w.shutdown.1.Attended := by
  rw [Worker.shutdown, Change.next_fst]
  have hstop : ∀ cancelled, Attended (stop { w with calls := w.calls + 1, cancelled }).1 :=
    fun cancelled => h.mono rfl rfl rfl (Nat.le_succ _)
  refine (hstop _).advance (Nat.lt_succ_self _) (fun hmem => ?_) (fun hstage => ?_)
  · obtain ⟨d, hd, hcall⟩ := List.mem_map.1 hmem
    exact Nat.ne_of_lt (h.calls_lt d hd) hcall
  · cases hstage

theorem resumeDrain (h : w.Attended) (call : Token) : (w.resumeDrain call).1.Attended := by
  rw [Worker.resumeDrain]
  split
  · exact h
  · rename_i d found
    split
    · have hd := List.mem_of_find?_eq_some found
      refine (h.filter call).advance (h.calls_lt d hd) (fun hmem => ?_) (h.past d hd)
      obtain ⟨u, hu, hcall⟩ := List.mem_map.1 hmem
      have hcall' : d.call = call := by simpa using List.find?_some found
      exact absurd (hcall.trans hcall') (by simpa using (List.mem_filter.1 hu).2)
    · exact h

end Attended

theorem Stopped.attended (hs : w.Stopped) (h : w.Attended) {e : Event}
    (keeps : e.mayReturn = false) : (w.step e).1.Attended := by
  have hclosing := step_closing hs e
  generalize w.step e = change at hclosing ⊢
  cases hclosing with
  | idle => exact h
  | respond => exact h.mono rfl rfl rfl (Nat.le_succ _)
  | refuse => exact h.mono rfl rfl rfl (Nat.le_succ _)
  | @closeOut call now v found =>
    obtain ⟨free, waiters, hleave⟩ := w.leave_fst v v.request
    rw [Change.next_fst, hleave]
    exact (h.settled v.request free waiters).mono rfl rfl rfl (Nat.le_refl _)
  | @abandon call v found =>
    obtain ⟨free, waiters, hleave⟩ := w.leave_fst v v.request
    rw [Change.next_fst, hleave]
    exact h.settled v.request free waiters
  | finish elapsed found => exact h.finish (List.mem_of_find?_eq_some found) _ elapsed
  | reportEnded t delivered => exact h.reportEnded hs t delivered
  | shutdown | resumeDrain => cases keeps
  | drop => exact h.mono rfl rfl rfl (Nat.le_refl _)

theorem step_attended (hs : w.Switched) (h : w.Attended) (e : Event) : (w.step e).1.Attended := by
  have hother : e.mayReturn = false → (w.step e).1.Attended := by
    intro keeps
    cases accepts : w.accepting with
    | true =>
      -- nobody waits for the end of a worker that accepts
      have hdues := step_dues_eq (w := w) keeps
      refine Attended.of_drains_nil ?_
      simpa [dues, hs.drains accepts] using hdues
    | false => exact (hs.stopped_of_refuses accepts).attended h keeps
  cases e with
  | shutdown =>
    rw [step]
    split
    · exact h
    · exact h.shutdown
  | resumeDrain call => exact h.resumeDrain call
  | _ => exact hother rfl

theorem resumeDrain_dues (h : w.Attended) (call : Token) :
    (returns (w.resumeDrain call).2 ++ (w.resumeDrain call).1.dues).Perm w.dues := by
  rw [resumeDrain]
  split
  · exact List.Perm.refl _
  · rename_i d found
    split
    · have hd := List.mem_of_find?_eq_some found
      have hcall : d.call = call := by simpa using List.find?_some found
      have htaken := (perm_cons_filter h.calls_nodup hd).map fun d => (d.call, d.cancelled)
      rw [hcall] at htaken
      exact ((advanceDrain_dues _ d).trans (List.perm_append_singleton _ _)).trans htaken.symm
    · exact List.Perm.refl _

theorem step_dues (h : w.Attended) (e : Event) :
    (returns (w.step e).2 ++ (w.step e).1.dues).Perm (w.dues ++ w.issue e) := by
  have hother : e.mayReturn = false → w.issue e = [] →
      (returns (w.step e).2 ++ (w.step e).1.dues).Perm (w.dues ++ w.issue e) := by
    intro keeps hissue
    rw [step_returns_nil keeps, step_dues_eq keeps, hissue, List.nil_append, List.append_nil]
  cases e with
  | shutdown =>
    rw [step, issue]
    split
    · simp
    · exact w.shutdown_dues
  | resumeDrain call =>
    have hissue : w.issue (.resumeDrain call) = [] := rfl
    rw [hissue, List.append_nil]
    exact resumeDrain_dues h call
  | _ => exact hother rfl rfl

theorem run_attended (hs : w.Switched) (h : w.Attended) (events : List Event) :
    (w.run events).1.Attended :=
  run_induction (P := fun _ c => c.1.Attended) h
    (fun earlier e ih => step_attended (run_switched hs earlier) ih e) events

theorem run_dues (hs : w.Switched) (h : w.Attended) (events : List Event) :
    (returns (w.run events).2 ++ (w.run events).1.dues).Perm (w.dues ++ w.issued events) := by
  induction events generalizing w with
  | nil => simp [run, issued]
  | cons e rest ih =>
    have hstep := step_dues h e
    have hrest := ih (step_switched hs e) (step_attended hs h e)
    simp only [run, Change.next_fst, Change.next_snd, returns_append, issued]
    rw [List.append_assoc, ← List.append_assoc w.dues]
    refine (hrest.append_left _).trans ?_
    rw [← List.append_assoc]
    exact hstep.append_right _

theorem start_drains {meter : Meter} {config : Config} (h : start meter config = .ok w) :
    w.drains = [] := by
  rw [start_eq h]

theorem advanceDrain_returned {d : Drain} (past : d.stage = .reservations → w.executionsDone = true)
    {call : Token} {n : Nat} (mem : .returned call n ∈ (w.advanceDrain d).2) :
    w.Done ∧ (w.advanceDrain d).1 = w := by
  rcases w.advanceDrain_cases d past with ⟨stage, -, -, hadvance⟩ | ⟨hdone, hadvance⟩
  · rw [hadvance] at mem
    cases mem
  · exact ⟨hdone, by rw [hadvance]⟩

theorem step_returned (hs : w.Switched) (h : w.Attended) {e : Event} {call : Token} {n : Nat}
    (mem : .returned call n ∈ (w.step e).2) : (w.step e).1.Stopped ∧ (w.step e).1.Done := by
  have hnot : ∀ {notices : List Notice}, returns notices = [] → .returned call n ∉ notices :=
    fun hnone hmem => by simpa [hnone] using mem_returns.2 hmem
  cases e with
  | shutdown =>
    rw [step] at mem ⊢
    split at mem
    · cases mem
    · rename_i hdropped
      rw [if_neg hdropped]
      refine ⟨w.shutdown_stopped, ?_⟩
      rw [shutdown, Change.next_snd, List.mem_append] at mem
      obtain ⟨hdone, hsame⟩ := advanceDrain_returned (fun hstage => by cases hstage)
        (mem.resolve_left (hnot (stop_returns _)))
      rw [shutdown, Change.next_fst, hsame]
      exact hdone
  | resumeDrain other =>
    simp only [step, resumeDrain] at mem ⊢
    split at mem
    · cases mem
    · rename_i d found
      have hd := List.mem_of_find?_eq_some found
      have hstopped := hs.stopped_of_drain hd
      split at mem
      · rename_i hwoken
        obtain ⟨hdone, hsame⟩ := advanceDrain_returned
          (w := { w with drains := w.drains.filter fun u => u.call ≠ other }) (h.past d hd) mem
        simp only [hwoken, if_true, hsame]
        exact ⟨⟨hstopped.refuses, hstopped.closed, hstopped.cancels⟩, hdone⟩
      · cases mem
  | _ => exact absurd mem (hnot (step_returns_nil rfl))

theorem Done.tickets (h : w.Done) (hb : w.books.Sound) : w.tickets = [] :=
  hb.isEmpty_iff.1 h.registry

theorem step_done (hb : w.books.Sound) (hs : w.Stopped) (h : w.Done) (e : Event) :
    (w.step e).1.Done := by
  have hnone : ∀ t, t ∉ w.tickets := fun t ht => by simp [h.tickets hb] at ht
  have hclosing := step_closing hs e
  generalize w.step e = change at hclosing ⊢
  cases hclosing with
  | idle | respond | refuse | drop => exact ⟨h.executions, h.registry⟩
  | closeOut found => exact absurd (Books.Sound.waiting_mem (waiter?_mem found).1) (hnone _)
  | abandon found => exact absurd (Books.Sound.waiting_mem (waiter?_mem found).1) (hnone _)
  | finish elapsed found =>
    exact absurd (Books.Sound.running_mem (execution?_mem found).1) (hnone _)
  | reportEnded t delivered =>
    have hreporting : w.reporting = [] := by
      simpa using (Bool.and_eq_true_iff.1 h.executions).2
    simp only [reportEnded, hreporting, List.contains_nil, Bool.false_eq_true, if_false]
    exact h
  | shutdown =>
    obtain ⟨drains, hdrain⟩ := w.numbered.advanceDrain_fst ⟨w.calls, 0, .executions, false⟩
    rw [hdrain]
    exact ⟨h.executions, h.registry⟩
  | @resumeDrain call d found woken =>
    obtain ⟨drains, hdrain⟩ := advanceDrain_fst { w with
      drains := w.drains.filter fun u => u.call ≠ call } d
    rw [hdrain]
    exact ⟨h.executions, h.registry⟩

theorem run_returned (hb : w.books.Sound) (hs : w.Switched) (h : w.Attended) (events : List Event)
    {call : Token} {n : Nat} (mem : .returned call n ∈ (w.run events).2) :
    (w.run events).1.Stopped ∧ (w.run events).1.Done := by
  revert mem
  refine run_induction (P := fun _ c => .returned call n ∈ c.2 → c.1.Stopped ∧ c.1.Done)
    (fun mem => by cases mem) (fun earlier e ih mem => ?_) events
  rcases List.mem_append.1 mem with mem | mem
  · obtain ⟨hstopped, hdone⟩ := ih mem
    exact ⟨step_stopped hstopped e, step_done (run_sound hb earlier).1 hstopped hdone e⟩
  · exact step_returned (run_switched hs earlier) (run_attended hs h earlier) mem

end Worker

end BoundedWorker
