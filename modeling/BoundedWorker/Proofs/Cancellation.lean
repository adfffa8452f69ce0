import BoundedWorker.Proofs.Drains
import BoundedWorker.Proofs.Finality

/-!
Cancellation. The first shutdown returns how many executions run when it comes, and these are the
ones that end after it: each of them at its next turn, whatever its body and its deadline do in that
turn, as cancelled and counted as cancelled. Every other shutdown returns zero.
-/

namespace BoundedWorker

def Notice.ending? : Notice → Option (Token × TaskResult)
  | .reported t result => some (t, result)
  | _ => none

def endings (notices : List Notice) : List (Token × TaskResult) :=
  notices.filterMap Notice.ending?

@[simp] theorem endings_append (earlier later : List Notice) :
    endings (earlier ++ later) = endings earlier ++ endings later :=
  List.filterMap_append ..

theorem mem_endings {notices : List Notice} {t : Token} {result : TaskResult} :
    (t, result) ∈ endings notices ↔ .reported t result ∈ notices := by
  rw [endings, List.mem_filterMap]
  constructor
  · rintro ⟨n, hn, hending⟩
    cases n <;> simp_all [Notice.ending?]
  · exact fun h => ⟨_, h, rfl⟩

theorem endings_tales (notices : List Notice) :
    endings (notices.filterMap Notice.tale?) = endings notices := by
  rw [endings, endings, List.filterMap_filterMap]
  congr 1
  funext n
  cases n <;> rfl

def Totals.ends (t : Totals) : Totals :=
  { t with submitted := 0, admitted := 0, rejected := 0, reportFailures := 0 }

namespace Worker

variable {w : Worker}

theorem endings_of {c : Change} {r : Roll} {notices : List Notice}
    (h : rollView.of c = (r, notices)) : endings c.2 = endings notices := by
  rw [← endings_tales c.2]
  exact congrArg endings (congrArg Prod.snd h)

theorem reportEnded_ends (w : Worker) (t : Token) (delivered : Bool) :
    (w.reportEnded t delivered).1.totals.ends = w.totals.ends := by
  rw [reportEnded]
  split
  · cases delivered with
    | true => simp only [noteDone_fst, if_true]
    | false => simp only [noteDone_fst]; rfl
  · rfl

theorem leave_ends (w : Worker) (v : Waiter) (r : TaskRequest) :
    endings ((w.leaveQueue v).next fun w => w.endTicket r false).2 = [] ∧
      ((w.leaveQueue v).next fun w => w.endTicket r false).1.totals = w.totals ∧
      ((w.leaveQueue v).next fun w => w.endTicket r false).1.running = w.running := by
  obtain ⟨freeSlots, waiters, hleave⟩ := w.leave_fst v r
  rw [hleave]
  exact ⟨endings_of (w.leave_roll v r), rfl, rfl⟩

theorem step_ending (h : w.Stopped) (e : Event) :
    (endings (w.step e).2 = [] ∧ (w.step e).1.totals.ends = w.totals.ends ∧
        (w.step e).1.running = w.running) ∨
      ∃ x ∈ w.running, ∃ elapsed, endings (w.step e).2 =
          [(x.token, (Outcome.failed .cancelled).toResult x.request.taskId elapsed)] ∧
        (w.step e).1.totals.ends = (w.totals.countOutcome (.failed .cancelled)).ends ∧
        (w.step e).1.running = w.running.filter fun y => y.token ≠ x.token := by
  have hclosing := step_closing h e
  generalize w.step e = change at hclosing ⊢
  cases hclosing with
  | idle | respond | refuse | drop => exact .inl ⟨rfl, rfl, rfl⟩
  | closeOut =>
    obtain ⟨hends, htotals, hrunning⟩ := w.leave_ends _ _
    refine .inl ⟨?_, ?_, hrunning⟩
    · rw [Change.next_snd, endings_append, hends]
      rfl
    · exact congrArg (fun t => Totals.ends { t with rejected := t.rejected + 1 }) htotals
  | abandon =>
    obtain ⟨hends, htotals, hrunning⟩ := w.leave_ends _ _
    refine .inl ⟨?_, congrArg Totals.ends htotals, hrunning⟩
    rw [Change.next_snd, endings_append, hends]
    rfl
  | @finish t body expired x elapsed found =>
    obtain ⟨freeSlots, waiters, hfinish⟩ := w.finish_fst x (.failed .cancelled) elapsed
    refine .inr ⟨x, List.mem_of_find?_eq_some found, elapsed, ?_, ?_, ?_⟩
    · rw [endings_of (w.finish_roll x _ elapsed)]
      rfl
    · rw [hfinish]
      rfl
    · rw [hfinish]
      rfl
  | reportEnded t delivered =>
    have hroll := rollView.aside (w.reportEnded_aside t delivered)
    exact .inl ⟨endings_of hroll, w.reportEnded_ends t delivered,
      (congrArg (fun c => c.1.running) hroll :)⟩
  | shutdown =>
    obtain ⟨drains, hdrain⟩ := w.numbered.advanceDrain_fst ⟨w.calls, 0, .executions, false⟩
    rw [hdrain]
    exact .inl ⟨endings_of (rollView.aside (advanceDrain_aside _ _)), rfl, rfl⟩
  | @resumeDrain call d found woken =>
    obtain ⟨drains, hdrain⟩ := advanceDrain_fst { w with
      drains := w.drains.filter fun u => u.call ≠ call } d
    rw [hdrain]
    exact .inl ⟨endings_of (rollView.aside (advanceDrain_aside _ _)), rfl, rfl⟩

/-- Every execution that has ended since `w` ran at `w`, ended as cancelled, and is counted so; the
others still run. -/
structure Cancels (w : Worker) (c : Change) : Prop where
  perm : ((endings c.2).map Prod.fst ++ c.1.running.map Execution.token).Perm
    (w.running.map Execution.token)
  results : ∀ t result, (t, result) ∈ endings c.2 → ∃ x ∈ w.running, x.token = t ∧
    ∃ elapsed, result = (Outcome.failed .cancelled).toResult x.request.taskId elapsed
  totals : c.1.totals.ends = { w.totals.ends with
    cancelled := w.totals.cancelled + UInt64.ofNat (endings c.2).length }

theorem Cancels.refl (w : Worker) : w.Cancels (w, []) :=
  ⟨List.Perm.refl _, nofun, by simp [endings, Totals.ends]⟩

theorem Cancels.step {c : Change} (e : Event) (hc : w.Cancels c) (hb : c.1.books.Sound)
    (h : c.1.Stopped) (hsub : c.1.running ⊆ w.running) :
    w.Cancels (c.next fun u => u.step e) := by
  rcases step_ending h e with ⟨hends, htotals, hrunning⟩ |
    ⟨x, hx, elapsed, hends, htotals, hrunning⟩
  · refine ⟨?_, ?_, ?_⟩
    · simpa [hends, hrunning] using hc.perm
    · simpa [hends] using hc.results
    · simpa [hends, htotals] using hc.totals
  -- the execution that ends moves from those that run to those that have ended
  · have hperm := (perm_cons_filter (roll_distinct hb).running_nodup hx).map Execution.token
    refine ⟨?_, ?_, ?_⟩
    · simp only [Change.next_fst, Change.next_snd, endings_append, hends, hrunning, List.map_append,
        List.append_assoc]
      exact (hperm.symm.append_left _).trans hc.perm
    · intro t result mem
      simp only [Change.next_snd, endings_append, hends, List.mem_append] at mem
      rcases mem with mem | mem
      · exact hc.results t result mem
      · obtain ⟨rfl, rfl⟩ := Prod.mk.inj (List.mem_singleton.1 mem)
        exact ⟨x, hsub hx, rfl, elapsed, rfl⟩
    · have hcount : c.1.totals.cancelled =
          w.totals.cancelled + UInt64.ofNat (endings c.2).length :=
        congrArg Totals.cancelled hc.totals
      have hnext : (c.1.totals.countOutcome (.failed .cancelled)).ends =
          { c.1.totals.ends with cancelled := c.1.totals.cancelled + 1 } := rfl
      have hlength : (endings (c.next fun u => u.step e).2).length =
          (endings c.2).length + 1 := by
        simp [hends]
      rw [Change.next_fst, htotals, hnext, hc.totals, hcount, hlength, UInt64.ofNat_add,
        UInt64.add_assoc]
      rfl

theorem run_cancels (hb : w.books.Sound) (h : w.Stopped) (events : List Event) :
    w.Cancels (w.run events) :=
  run_induction (P := fun _ c => w.Cancels c) (.refl w)
    (fun earlier e ih => ih.step e (run_sound hb earlier).1 (run_stopped h earlier)
      (run_shrinks h earlier).running.subset) events

theorem turn_cancels (hb : w.books.Sound) (h : w.Stopped) {x : Execution} (hx : x ∈ w.running)
    (body : BodyTurn) (expired : Bool) (elapsed : Duration) :
    .reported x.token ((Outcome.failed .cancelled).toResult x.request.taskId elapsed) ∈
      (w.step (.turn x.token body expired elapsed)).2 := by
  rw [step, h.turn (execution?_of_mem hb hx)]
  exact List.mem_append_right _ (List.mem_singleton_self _)

theorem issued_append (w : Worker) (earlier later : List Event) :
    w.issued (earlier ++ later) = w.issued earlier ++ (w.run earlier).1.issued later := by
  induction earlier generalizing w with
  | nil => rfl
  | cons e rest ih => simp only [List.cons_append, issued, run, Change.next_fst, ih,
      List.append_assoc]

theorem issue_eq_nil {e : Event} (h : e ≠ .shutdown) : w.issue e = [] := by
  cases e with
  | shutdown => exact absurd rfl h
  | _ => rfl

theorem issued_eq_nil {events : List Event} (h : .shutdown ∉ events) : w.issued events = [] := by
  induction events generalizing w with
  | nil => rfl
  | cons e rest ih =>
    rw [List.mem_cons, not_or] at h
    rw [issued, issue_eq_nil fun he => h.1 he.symm, ih h.2]
    rfl

theorem mem_issued (h : w.Stopped) {events : List Event} {call : Token} {n : Nat}
    (mem : (call, n) ∈ w.issued events) : w.calls ≤ call ∧ n = 0 := by
  induction events generalizing w with
  | nil => cases mem
  | cons e rest ih =>
    rcases List.mem_append.1 mem with hnow | hlater
    · have he : e = .shutdown := by
        by_contra hne
        rw [issue_eq_nil hne] at hnow
        cases hnow
      rw [he, issue] at hnow
      split at hnow
      · cases hnow
      · obtain ⟨rfl, rfl⟩ := Prod.mk.inj (List.mem_singleton.1 hnow)
        exact ⟨Nat.le_refl _, by simp [h.refuses]⟩
    · obtain ⟨hle, hzero⟩ := ih (step_stopped h e) hlater
      exact ⟨(step_ebb h e).calls_le.trans hle, hzero⟩

theorem step_dropped (e : Event) (h : w.dropped = true) : (w.step e).1.dropped = true := by
  have hother : e.maySwitch = false → (w.step e).1.dropped = true := fun keeps =>
    (congrArg Switches.dropped (step_switches keeps)).trans h
  cases e with
  | shutdown =>
    rw [step, if_pos h]
    exact h
  | drop =>
    rw [step, Worker.drop]
    split
    · exact h
    · split <;> rfl
  | resumeDrain call =>
    obtain ⟨drains, hdrain⟩ := w.resumeDrain_fst call
    rw [step, hdrain]
    exact h
  | _ => exact hother rfl

theorem drop_dropped (h : w.hasCallers = false) : w.drop.1.dropped = true := by
  rw [Worker.drop, if_neg (by simp [h])]
  split <;> rfl

theorem start_accepts {meter : Meter} {config : Config} (h : start meter config = .ok w) :
    w.accepting = true := by
  rw [start_eq h]

theorem run_accepts {meter : Meter} {config : Config} (h : start meter config = .ok w)
    (events : List Event) : .shutdown ∉ events → (w.run events).1.dropped = false →
      (w.run events).1.accepting = true := by
  refine run_induction (P := fun events c => .shutdown ∉ events → c.1.dropped = false →
    c.1.accepting = true) (fun _ _ => start_accepts h) (fun earlier e ih first remains => ?_)
    events
  · rw [List.mem_append, List.mem_singleton, not_or] at first
    have hs := run_switched (start_switched h) earlier
    have hremains : (w.run earlier).1.dropped = false := by
      cases hdropped : (w.run earlier).1.dropped with
      | false => rfl
      | true => exact absurd (step_dropped e hdropped) (by simpa using remains)
    have hopen := (hs.serving_of_accepts (ih first.1 hremains)).isOpen
    cases accepts : ((w.run earlier).1.step e).1.accepting with
    | true => exact accepts
    | false =>
      have hclosed := ((step_switched hs e).stopped_of_refuses accepts).closed
      have hcloses := closes_of_closed hopen hclosed
      cases e with
      | shutdown => exact absurd rfl first.2
      | drop => exact absurd (remains.symm.trans (drop_dropped hcloses)) Bool.false_ne_true
      | _ => cases hcloses

theorem eq_of_issued (accepts : w.accepting = true) (remains : w.dropped = false)
    {later : List Event} {call : Token} {n : Nat}
    (mem : (call, n) ∈ w.issued (.shutdown :: later)) :
    n = if call = w.calls then w.registry.activeCount else 0 := by
  rcases List.mem_append.1 mem with hnow | hlater
  · rw [issue, if_neg (by simp [remains]), if_pos accepts] at hnow
    obtain ⟨rfl, rfl⟩ := Prod.mk.inj (List.mem_singleton.1 hnow)
    rw [if_pos rfl]
  · rw [step_shutdown remains] at hlater
    obtain ⟨hle, rfl⟩ := mem_issued w.shutdown_stopped hlater
    obtain ⟨drains, hshutdown⟩ := w.shutdown_fst
    rw [hshutdown] at hle
    exact (if_neg (Nat.ne_of_gt hle)).symm

theorem shutdown_cancels (hb : w.books.Sound) (remains : w.dropped = false)
    (later : List Event) : w.Cancels (w.run (.shutdown :: later)) := by
  have hsound := (step_booking hb .shutdown).sound hb
  rw [run, step_shutdown remains] at *
  have hlater := run_cancels hsound w.shutdown_stopped later
  obtain ⟨drains, hshutdown⟩ := w.shutdown_fst
  have hrunning : w.shutdown.1.running = w.running := by rw [hshutdown]
  have htotals : w.shutdown.1.totals = w.totals := by rw [hshutdown]
  have hsilent : endings w.shutdown.2 = [] := endings_of w.shutdown_roll
  refine ⟨?_, ?_, ?_⟩
  · simpa [hsilent, hrunning] using hlater.perm
  · simpa [hsilent, hrunning] using hlater.results
  · simpa [hsilent, htotals] using hlater.totals

/-- The first shutdown returns the number of executions that run when it comes, once it returns;
every other shutdown returns zero. These executions, and no others, end after it: each at its next
turn, with a result that says that it was cancelled, and counted as one more that was cancelled. By
the time a shutdown returns, they all have. -/
theorem run_shutdown {meter : Meter} {config : Config} (h : start meter config = .ok w)
    (earlier : List Event) (first : .shutdown ∉ earlier)
    (remains : (w.run earlier).1.dropped = false) (later : List Event) :
    (w.run earlier).1.registry.activeCount = (w.run earlier).1.running.length ∧
    (∀ call n, .returned call n ∈ (w.run (earlier ++ .shutdown :: later)).2 →
      (n = if call = (w.run earlier).1.calls then (w.run earlier).1.running.length else 0) ∧
        (w.run (earlier ++ .shutdown :: later)).1.running = []) ∧
    (.returned (w.run earlier).1.calls (w.run earlier).1.running.length ∈
        (w.run (earlier ++ .shutdown :: later)).2 ∨
      ∃ d ∈ (w.run (earlier ++ .shutdown :: later)).1.drains,
        d.call = (w.run earlier).1.calls) ∧
    (w.run earlier).1.Cancels ((w.run earlier).1.run (.shutdown :: later)) ∧
    (∀ t result, .reported t result ∈ ((w.run earlier).1.run (.shutdown :: later)).2 →
      result.success = false ∧ result.error? = some "cancelled") ∧
    ∀ x ∈ (w.run (earlier ++ .shutdown :: later)).1.running, ∀ body expired elapsed,
      .reported x.token ((Outcome.failed .cancelled).toResult x.request.taskId elapsed) ∈
        ((w.run (earlier ++ .shutdown :: later)).1.step
          (.turn x.token body expired elapsed)).2 := by
  have hb := (run_sound (start_sound h) earlier).1
  have haccepts := run_accepts h earlier first remains
  have hactive : (w.run earlier).1.registry.activeCount = (w.run earlier).1.running.length :=
    hb.activeCount_eq.trans (List.length_map _)
  have hissued : w.issued (earlier ++ .shutdown :: later) =
      (w.run earlier).1.issued (.shutdown :: later) := by
    rw [issued_append, issued_eq_nil first, List.nil_append]
  have hdues := run_dues (start_switched h) (.of_drains_nil (start_drains h))
    (earlier ++ .shutdown :: later)
  rw [hissued, show w.dues = [] by rw [dues, start_drains h]; rfl, List.nil_append] at hdues
  have hcancels := shutdown_cancels hb remains later
  refine ⟨hactive, fun call n mem => ⟨?_, ?_⟩, ?_, hcancels, fun t result mem => ?_, ?_⟩
  · have hmem := hdues.mem_iff.1 (List.mem_append_left _ (mem_returns.2 mem))
    rw [← hactive]
    exact eq_of_issued haccepts remains hmem
  · obtain ⟨-, hdone⟩ := run_returned (start_sound h) (start_switched h)
      (.of_drains_nil (start_drains h)) _ mem
    simpa using (Bool.and_eq_true_iff.1 hdone.executions).1
  · have hfirst : ((w.run earlier).1.calls, (w.run earlier).1.running.length) ∈
        (w.run earlier).1.issued (.shutdown :: later) := by
      rw [issued, issue, if_neg (by simp [remains]), if_pos haccepts, hactive]
      exact List.mem_cons_self
    rcases List.mem_append.1 (hdues.mem_iff.2 hfirst) with hreturned | hdue
    · exact .inl (mem_returns.1 hreturned)
    · obtain ⟨d, hd, hsame⟩ := List.mem_map.1 hdue
      exact .inr ⟨d, hd, congrArg Prod.fst hsame⟩
  · obtain ⟨x, -, -, elapsed, rfl⟩ := hcancels.results t result (mem_endings.2 mem)
    have hfailure : (Outcome.failed .cancelled).failure? = some .cancelled := rfl
    exact ⟨Outcome.toResult_success _ _ _, Outcome.toResult_error? hfailure _ _⟩
  · have hstopped : (w.run (earlier ++ .shutdown :: later)).1.Stopped := by
      rw [run_append]
      exact run_stopped (run_closed h (e := .shutdown) remains).stopped later
    exact fun x hx => turn_cancels (run_sound (start_sound h) _).1 hstopped hx

theorem run_shutdown_two : ∃ w, start .millionths (.standard "w") = .ok w ∧ ∃ c d,
    c = (w.run [.submit (.new "a" .null) 0, .submit (.new "b" .null) 0]).1 ∧
    d = w.run [.submit (.new "a" .null) 0, .submit (.new "b" .null) 0, .shutdown, .shutdown,
      .turn 0 ⟨false, some (.completed .empty)⟩ false .zero, .turn 1 ⟨false, none⟩ true .zero,
      .reportEnded 0 true, .reportEnded 1 true, .resumeDrain 3, .resumeDrain 2] ∧
    c.running.length = 2 ∧ .returned 2 2 ∈ d.2 ∧ (∀ n, .returned 3 n ∈ d.2 → n = 0) ∧
    d.1.running = [] ∧
    c.Cancels (c.run [.shutdown, .shutdown,
      .turn 0 ⟨false, some (.completed .empty)⟩ false .zero, .turn 1 ⟨false, none⟩ true .zero,
      .reportEnded 0 true, .reportEnded 1 true, .resumeDrain 3, .resumeDrain 2]) := by
  refine ⟨_, rfl, _, _, rfl, rfl, ?_⟩
  obtain ⟨-, hreturned, -, hcancels, -⟩ := run_shutdown
    (show start .millionths (.standard "w") = .ok _ from rfl)
    [.submit (.new "a" .null) 0, .submit (.new "b" .null) 0] (by simp) rfl [.shutdown,
      .turn 0 ⟨false, some (.completed .empty)⟩ false .zero, .turn 1 ⟨false, none⟩ true .zero,
      .reportEnded 0 true, .reportEnded 1 true, .resumeDrain 3, .resumeDrain 2]
  obtain ⟨-, hended⟩ := hreturned 2 2 (mem_returns.1 (List.mem_cons_of_mem _ List.mem_cons_self))
  refine ⟨rfl, ?_, fun n mem => (hreturned 3 n mem).1, hended, hcancels⟩
  exact mem_returns.1 (List.mem_cons_of_mem _ List.mem_cons_self)

end Worker

end BoundedWorker
