import BoundedWorker.Proofs.Drains

/-!
Shutdown. A shutdown returns only when nothing is left of what was admitted: nobody waits or runs,
every report has been attempted, and the ledger is back where it started. Once that is so, every
shutdown that still waits has been woken, and returns at its next turn.
-/

namespace BoundedWorker

namespace Worker

def ReportEnded (w : Worker) (events : List Event) (t : Token) : Prop :=
  ∃ earlier delivered later, events = earlier ++ .reportEnded t delivered :: later ∧
    t ∈ (w.run earlier).1.reporting

structure Drained (w : Worker) (limits : Profile) : Prop where
  waiters : w.waiters = []
  running : w.running = []
  reporting : w.reporting = []
  registry : w.registry.isEmpty = true
  idle : w.ledger.isIdle = true
  load : ∀ kind, w.ledger.profile.get? kind = (limits.get? kind).map fun _ => 0

variable {w : Worker}

theorem ReportEnded.append {events : List Event} {t : Token} (h : w.ReportEnded events t)
    (more : List Event) : w.ReportEnded (events ++ more) t := by
  obtain ⟨earlier, delivered, later, rfl, mem⟩ := h
  exact ⟨earlier, delivered, later ++ more, by simp, mem⟩

theorem cancelledIf_reporting (w : Worker) (c : Bool) (t : Token) :
    (w.cancelledIf c t).reporting = w.reporting := by
  cases c <;> rfl

theorem reportEnded_reporting (w : Worker) (t : Token) (delivered : Bool) :
    (w.reportEnded t delivered).1.reporting = w.reporting.filter (· ≠ t) := by
  rw [reportEnded]
  split
  · cases delivered with
    | true => simp [noteDone_fst]
    | false => simp [noteDone_fst, withTotals]
  · rename_i hnone
    refine (List.filter_eq_self.2 fun u hu => ?_).symm
    simpa using fun he : u = t => hnone (by simpa [he] using hu)

theorem step_reporting (w : Worker) (e : Event) {t : Token} (mem : t ∈ w.reporting) :
    t ∈ (w.step e).1.reporting ∨ ∃ delivered, e = .reportEnded t delivered := by
  have hrest : ∀ {c : Change}, c.1.rest = w.rest → t ∈ c.1.reporting := by
    intro c hc
    have hreporting : c.1.reporting = w.reporting := congrArg Rest.reporting hc
    rwa [hreporting]
  have heffect := w.step_effect e
  generalize w.step e = change at heffect ⊢
  cases heffect with
  | idle | respond | refuse | queue | launch | resume => exact .inl mem
  | @turnAway _ r now ledger asked decided closed =>
    exact .inl (hrest ((w.opened.reserved r ledger).endTicket_rest r false))
  | @overtake call now v found isOpen granted refuses =>
    exact .inl (hrest ((w.unqueued call).endTicket_rest v.request true))
  | @closeOut call now v found closed => exact .inl (hrest (w.leave_rest v v.request))
  | @abandon call v found => exact .inl (hrest (w.leave_rest v v.request))
  | @carryOn t' body expired x elapsed found undecided =>
    left
    change t ∈ (w.cancelledIf (w.cancels _) t').reporting
    rwa [cancelledIf_reporting]
  | @finish t' body expired x o elapsed found decided =>
    left
    rw [Change.next_fst, finish_reporting, cancelledIf_reporting]
    exact List.mem_append_left _ mem
  | reportEnded t' delivered =>
    by_cases he : t = t'
    · exact .inr ⟨delivered, by rw [he]⟩
    · left
      rw [reportEnded_reporting]
      exact List.mem_filter.2 ⟨mem, by simpa using he⟩
  | shutdown =>
    obtain ⟨drains, hshutdown⟩ := w.shutdown_fst
    left
    rw [hshutdown]
    exact mem
  | resumeDrain call =>
    obtain ⟨drains, hdrain⟩ := w.resumeDrain_fst call
    left
    rw [hdrain]
    exact mem
  | drop =>
    left
    rw [Worker.drop]
    split
    · exact mem
    · split
      · exact mem
      · exact mem

theorem run_reported (hb : w.books.Sound) (events : List Event) {t : Token} {result : TaskResult}
    (mem : .reported t result ∈ (w.run events).2) :
    t ∈ (w.run events).1.reporting ∨ w.ReportEnded events t := by
  revert mem
  refine run_induction (P := fun events c => .reported t result ∈ c.2 →
    t ∈ c.1.reporting ∨ w.ReportEnded events t) (fun mem => by cases mem)
    (fun earlier e ih mem => ?_) events
  rcases List.mem_append.1 mem with mem | mem
  · rcases ih mem with hmem | hended
    · rcases step_reporting _ e hmem with hstep | ⟨delivered, rfl⟩
      · exact .inl hstep
      · exact .inr ⟨earlier, delivered, [], rfl, hmem⟩
    · exact .inr (hended.append [e])
  · obtain ⟨x, w', rfl, hdelivers⟩ := step_delivers (run_sound hb earlier).1 mem
    obtain ⟨before, hlast⟩ := hdelivers.last
    left
    rw [Change.next_fst, hlast]
    exact List.mem_append_right _ (List.mem_singleton_self _)

theorem done_of_counts (hb : w.books.Sound) (waiting : w.registry.waitingCount = 0)
    (active : w.registry.activeCount = 0) (reporting : w.reporting = []) : w.Done := by
  have hwaiting : w.books.waiting = [] :=
    List.eq_nil_of_length_eq_zero (hb.waitingCount_eq.symm.trans waiting)
  have hrunning : w.books.running = [] :=
    List.eq_nil_of_length_eq_zero (hb.activeCount_eq.symm.trans active)
  have hdone : w.running = [] := List.map_eq_nil_iff.1 hrunning
  exact ⟨by simp [executionsDone, hdone, reporting],
    hb.isEmpty_iff.2 (List.append_eq_nil_iff.2 ⟨hwaiting, hrunning⟩)⟩

theorem Done.drained {limits : Profile} (h : w.Done) (hb : w.books.Sound) (hl : w.books.Listed)
    (hlimits : w.ledger.limits = limits.map w.ledger.meter.units) : w.Drained limits := by
  have hnone : w.books.waiting ++ w.books.running = [] := h.tickets hb
  obtain ⟨hwaiting, hrunning⟩ := List.append_eq_nil_iff.1 hnone
  have hidle := isIdle_of_tickets hl (h.tickets hb)
  refine ⟨List.map_eq_nil_iff.1 hwaiting, List.map_eq_nil_iff.1 hrunning, ?_, h.registry, hidle, ?_⟩
  · simpa using (Bool.and_eq_true_iff.1 h.executions).2
  · intro kind
    rw [Ledger.profile_of_isIdle hidle, hlimits, Table.get?_map, Table.get?_map, Option.map_map]
    rfl

theorem run_limits {meter : Meter} {config : Config} (h : start meter config = .ok w)
    (events : List Event) : (w.run events).1.ledger.limits =
      config.limits.map (w.run events).1.ledger.meter.units := by
  obtain ⟨ops, hops⟩ := run_ledger (start_sound h) events
  have hnew : w.ledger = .new meter config.limits := congrArg Books.ledger (start_books h)
  rw [hops, Ledger.run_limits, Ledger.run_meter, hnew]
  rfl

namespace Done

theorem woken (h : w.Done) (ha : w.Attended) {d : Drain} (hd : d ∈ w.drains) :
    d.woken = true := by
  cases hwoken : d.woken with
  | true => rfl
  | false =>
    have hasleep := ha.awake d hd hwoken
    cases hstage : d.stage with
    | executions => simp [hstage, reached, h.executions] at hasleep
    | reservations => simp [hstage, reached, h.registry] at hasleep

theorem advanceDrain (h : w.Done) (d : Drain) :
    w.advanceDrain d = (w, [.returned d.call d.cancelled]) := by
  simp [Worker.advanceDrain, h.executions, h.registry]

theorem resumeDrain_returned (h : w.Done) (ha : w.Attended) {d : Drain} (hd : d ∈ w.drains) :
    .returned d.call d.cancelled ∈ (w.resumeDrain d.call).2 := by
  have found : (w.drains.find? fun u => u.call = d.call) = some d :=
    find?_key_mem ha.calls_nodup hd
  have hdone : Done { w with drains := w.drains.filter fun u => u.call ≠ d.call } :=
    ⟨h.executions, h.registry⟩
  simp only [resumeDrain, found, h.woken ha hd, if_true, hdone.advanceDrain]
  exact List.mem_singleton_self _

theorem shutdown_returned (h : w.Done) (active : w.registry.activeCount = 0) :
    .returned w.calls 0 ∈ w.shutdown.2 := by
  have hcount : (if w.accepting then w.registry.tokens else []).length = 0 := by
    split
    · exact (List.length_map _).trans active
    · rfl
  rw [shutdown, Change.next_snd, hcount]
  refine List.mem_append_right _ ?_
  have hstop : ∀ cancelled, Done (stop { w with calls := w.calls + 1, cancelled }).1 :=
    fun _ => ⟨h.executions, h.registry⟩
  rw [(hstop _).advanceDrain]
  exact List.mem_singleton_self _

theorem run_returned (h : w.Done) (hb : w.books.Sound) (hs : w.Switched) (ha : w.Attended)
    {d : Drain} (hd : d ∈ w.drains) {events : List Event}
    (turn : .resumeDrain d.call ∈ events) : .returned d.call d.cancelled ∈ (w.run events).2 := by
  induction events generalizing w d with
  | nil => cases turn
  | cons e rest ih =>
    rw [run, Change.next_snd]
    by_cases he : e = .resumeDrain d.call
    · subst he
      exact List.mem_append_left _ (h.resumeDrain_returned ha hd)
    -- until its turn comes the shutdown either returns or stays due
    · have hturn : .resumeDrain d.call ∈ rest :=
        (List.mem_cons.1 turn).resolve_left fun h => he h.symm
      have hkept : (d.call, d.cancelled) ∈ returns (w.step e).2 ++ (w.step e).1.dues :=
        (step_dues ha e).mem_iff.2 (List.mem_append_left _ (List.mem_map_of_mem hd))
      rcases List.mem_append.1 hkept with hreturned | hdue
      · exact List.mem_append_left _ (mem_returns.1 hreturned)
      · obtain ⟨u, hu, hsame⟩ := List.mem_map.1 hdue
        obtain ⟨hcall, hcancelled⟩ := Prod.mk.inj hsame
        have hlater := ih (step_done hb (hs.stopped_of_drain hd) h e) ((step_booking hb e).sound hb)
          (step_switched hs e) (step_attended hs ha e) hu (hcall ▸ hturn)
        rw [hcall, hcancelled] at hlater
        exact List.mem_append_right _ hlater

end Done

/-- A shutdown has returned only in states where nothing is left of what was admitted, and every
admitted task's report has ended. Once that is so, every shutdown that was called for has returned,
or has been woken and returns at its next turn; and one that is called for then returns at once. -/
theorem run_drains {meter : Meter} {config : Config} (h : start meter config = .ok w)
    (events : List Event) :
    (∀ call n, .returned call n ∈ (w.run events).2 →
      (w.run events).1.Drained config.limits ∧
        ∀ t id, .answered t (.ok id) ∈ (w.run events).2 → w.ReportEnded events t) ∧
    ((w.run events).1.registry.waitingCount = 0 → (w.run events).1.registry.activeCount = 0 →
      (w.run events).1.reporting = [] →
        (∀ call n, (call, n) ∈ w.issued events → .returned call n ∈ (w.run events).2 ∨
          ∃ d ∈ (w.run events).1.drains, d.call = call ∧ d.woken = true ∧
            ∀ later, .resumeDrain call ∈ later →
              .returned call n ∈ ((w.run events).1.run later).2) ∧
        ((w.run events).1.dropped = false → .returned (w.run events).1.calls 0 ∈
          ((w.run events).1.step .shutdown).2)) := by
  have hb := (run_sound (start_sound h) events).1
  have hs := run_switched (start_switched h) events
  have ha := run_attended (start_switched h) (.of_drains_nil (start_drains h)) events
  refine ⟨fun call n mem => ?_, fun waiting active reporting => ?_⟩
  · obtain ⟨hstopped, hdone⟩ := run_returned (start_sound h) (start_switched h)
      (.of_drains_nil (start_drains h)) events mem
    have hdrained := hdone.drained hb (run_listed (start_sound h) (start_listed h) events)
      (run_limits h events)
    refine ⟨hdrained, fun t id ok => ?_⟩
    obtain ⟨-, ⟨⟨r, started, hstage⟩, -⟩ | ⟨-, result, hone, -⟩⟩ :=
      (run_tells h events t).of_ok (mem_story.2 ⟨ok, rfl⟩)
    · have hfound := execution?_of_stage_running hstage
      simp [execution?, hdrained.running] at hfound
    · rw [results_story] at hone
      have hreported : .reported t result ∈ (w.run events).2 :=
        mem_results.1 (hone ▸ List.mem_singleton_self _)
      exact (run_reported (start_sound h) events hreported).resolve_left
        (by simp [hdrained.reporting])
  · have hdone := done_of_counts hb waiting active reporting
    refine ⟨fun call n hissued => ?_, fun hdropped => ?_⟩
    · have hdues := run_dues (start_switched h) (.of_drains_nil (start_drains h)) events
      rcases List.mem_append.1 (hdues.mem_iff.2 (List.mem_append_right _ hissued)) with mem | due
      · exact .inl (mem_returns.1 mem)
      · obtain ⟨d, hd, hdue⟩ := List.mem_map.1 due
        obtain ⟨rfl, rfl⟩ := Prod.mk.inj hdue
        exact .inr ⟨d, hd, rfl, hdone.woken ha hd, fun later turn =>
          hdone.run_returned hb hs ha hd turn⟩
    · rw [step_shutdown hdropped]
      exact hdone.shutdown_returned active

theorem run_drains_two : ∃ config, config = { Config.standard "w" with maxConcurrentTasks := 1 } ∧
    ∃ w, start .millionths config = .ok w ∧ ∃ events c,
      events = [.submit (.new "a" .null) 0, .submit (.new "b" .null) 0, .shutdown, .shutdown,
        .turn 0 ⟨false, none⟩ false .zero, .resume 1 0, .reportEnded 0 true, .resumeDrain 2] ∧
      c = w.run events ∧ c.1.Drained config.limits ∧ w.ReportEnded events 0 ∧
      (.returned 3 0 ∈ c.2 ∨ ∃ d ∈ c.1.drains, d.call = 3 ∧ d.woken = true ∧
        ∀ later, .resumeDrain 3 ∈ later → .returned 3 0 ∈ (c.1.run later).2) ∧
      .returned 4 0 ∈ (c.1.step .shutdown).2 := by
  refine ⟨_, rfl, _, rfl, _, _, rfl, rfl, ?_⟩
  obtain ⟨hreturned, hwaiting⟩ := run_drains (show start .millionths
    { Config.standard "w" with maxConcurrentTasks := 1 } = .ok _ from rfl)
    [.submit (.new "a" .null) 0, .submit (.new "b" .null) 0, .shutdown, .shutdown,
      .turn 0 ⟨false, none⟩ false .zero, .resume 1 0, .reportEnded 0 true, .resumeDrain 2]
  obtain ⟨hdrained, hended⟩ := hreturned 2 1 (mem_returns.1 (List.mem_singleton_self _))
  obtain ⟨hwoken, hagain⟩ := hwaiting rfl rfl rfl
  refine ⟨hdrained, hended 0 "a" ?_, hwoken 3 0 ?_, hagain rfl⟩
  · exact List.mem_cons_of_mem _ List.mem_cons_self
  · exact List.mem_cons_of_mem _ List.mem_cons_self

end Worker

end BoundedWorker
