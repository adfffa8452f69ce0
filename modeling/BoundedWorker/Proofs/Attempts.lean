import BoundedWorker.Host.Script
import BoundedWorker.Proofs.Step

/-!
Attempts. Three things can be ready at a poll, and the first poll at which one of them is settles the
attempt: with a cancellation if the token was cancelled before, else with what the body has come to,
else with a timeout. Once the token is cancelled the body gets no turn, and the attempt cancels it
only on a timeout.
-/

namespace BoundedWorker

def Stimulus.poll? : Stimulus → Option (Nat × BodyTurn)
  | cancel => none
  | poll now body => some (now, body)

namespace Attempt

def polls (stimuli : List Stimulus) : List (Nat × BodyTurn) := stimuli.filterMap Stimulus.poll?

def began (stimuli : List Stimulus) (now : Nat) : Nat := ((polls stimuli).map Prod.fst).headD now

section

variable (limit : Duration) (before : Bool) (stimuli : List Stimulus)

/-- The token was cancelled from the start, from outside, or by a body that got its turn in every
poll. -/
def Cancelled : Prop :=
  before = true ∨ .cancel ∈ stimuli ∨ ∃ p ∈ polls stimuli, p.2.cancels = true

/-- What settles an attempt at a poll that comes after the stimuli. -/
inductive Settles (now : Nat) (body : BodyTurn) : Outcome → Prop where
  | cancelled (late : Cancelled before stimuli) : Settles now body (.failed .cancelled)
  | completed {metrics : Metrics} (lives : ¬Cancelled before stimuli)
      (finish : body.finish = some (.completed metrics)) : Settles now body (.completed metrics)
  | error {reasons : List String} (lives : ¬Cancelled before stimuli)
      (finish : body.finish = some (.error reasons)) :
      Settles now body (.failed (.execution (": ".intercalate reasons)))
  | panickedWith {s : String} (lives : ¬Cancelled before stimuli)
      (finish : body.finish = some (.panicked (.text s))) :
      Settles now body (.failed (.execution ("task body panicked: " ++ s)))
  | panicked (lives : ¬Cancelled before stimuli)
      (finish : body.finish = some (.panicked .noText)) :
      Settles now body (.failed (.execution "task body panicked"))
  | timeout (lives : ¬Cancelled before stimuli) (unfinished : body.finish = none)
      (due : dueAfter (began stimuli now) limit ≤ now) :
      Settles now body (.failed (.timeout limit))

def Quiet : Prop :=
  ∀ earlier now body later, stimuli = earlier ++ .poll now body :: later →
    ∀ o, ¬Settles limit before earlier now body o

def Spares (s : Stimulus) : Prop :=
  ∀ now body, s = .poll now body → ∀ o, ¬Settles limit before stimuli now body o

/-- The first poll at which something is ready, what was before it, and what comes of it. -/
structure SettlesFirst (earlier : List Stimulus) (now : Nat) (body : BodyTurn) (o : Outcome) :
    Prop where
  split : ∃ later, stimuli = earlier ++ .poll now body :: later
  quiet : Quiet limit before earlier
  settles : Settles limit before earlier now body o

end

variable {limit : Duration} {before : Bool} {stimuli earlier : List Stimulus} {a : Attempt}
  {now : Nat} {body : BodyTurn} {o : Outcome}

@[simp] theorem polls_append (earlier later : List Stimulus) :
    polls (earlier ++ later) = polls earlier ++ polls later :=
  List.filterMap_append

@[simp] theorem polls_cancel : polls [.cancel] = [] := rfl

@[simp] theorem polls_poll (now : Nat) (body : BodyTurn) : polls [.poll now body] = [(now, body)] :=
  rfl

theorem began_cancel (stimuli : List Stimulus) (now : Nat) :
    began (stimuli ++ [.cancel]) now = began stimuli now := by
  simp [began]

theorem began_poll (stimuli : List Stimulus) (now later : Nat) (body : BodyTurn) :
    began (stimuli ++ [.poll now body]) later = began stimuli now := by
  rw [began, began, polls_append, polls_poll, List.map_append]
  cases polls stimuli with
  | nil => rfl
  | cons p rest => rfl

theorem settles_of_cancelled (late : Cancelled before stimuli) :
    Settles limit before stimuli now body o ↔ o = .failed .cancelled := by
  constructor
  · intro h
    cases h with
    | cancelled => rfl
    | _ => contradiction
  · rintro rfl
    exact .cancelled late

theorem settles_of_finish (lives : ¬Cancelled before stimuli) {e : BodyEnd}
    (finish : body.finish = some e) :
    Settles limit before stimuli now body o ↔ o = e.outcome := by
  constructor
  · intro h
    cases h with
    | cancelled late => exact absurd late lives
    | timeout _ unfinished => simp [unfinished] at finish
    | completed _ h | error _ h | panickedWith _ h | panicked _ h =>
      obtain rfl := Option.some.inj (finish.symm.trans h)
      rfl
  · rintro rfl
    cases e with
    | completed metrics => exact .completed lives finish
    | error reasons => exact .error lives finish
    | panicked panic =>
      cases panic with
      | text s => exact .panickedWith lives finish
      | noText => exact .panicked lives finish

theorem settles_of_unfinished (lives : ¬Cancelled before stimuli) (unfinished : body.finish = none) :
    Settles limit before stimuli now body o ↔
      dueAfter (began stimuli now) limit ≤ now ∧ o = .failed (.timeout limit) := by
  constructor
  · intro h
    cases h with
    | cancelled late => exact absurd late lives
    | timeout _ _ due => exact ⟨due, rfl⟩
    | completed _ h | error _ h | panickedWith _ h | panicked _ h => simp [unfinished] at h
  · rintro ⟨due, rfl⟩
    exact .timeout lives unfinished due

theorem poll_of_cancelled (late : a.cancelled = true) (now : Nat) (body : BodyTurn) :
    a.poll now body = { a with
      due := some (a.due.getD (dueAfter now a.limit))
      gaveUp := false
      outcome := some (.failed .cancelled) } := by
  simp [poll, Moment.cancelledAfter, Moment.verdict, late]

theorem poll_of_finish (lives : a.cancelled = false) {e : BodyEnd} (finish : body.finish = some e)
    (now : Nat) : a.poll now body = { a with
      due := some (a.due.getD (dueAfter now a.limit))
      cancelled := body.cancels
      turns := a.turns ++ [(now, body)]
      gaveUp := false
      outcome := some e.outcome } := by
  simp [poll, Moment.cancelledAfter, Moment.verdict, lives, finish]

theorem poll_of_due (lives : a.cancelled = false) (unfinished : body.finish = none)
    (due : a.due.getD (dueAfter now a.limit) ≤ now) : a.poll now body = { a with
      due := some (a.due.getD (dueAfter now a.limit))
      cancelled := true
      turns := a.turns ++ [(now, body)]
      gaveUp := true
      outcome := some (.failed (.timeout a.limit)) } := by
  simp [poll, Moment.cancelledAfter, Moment.verdict, lives, unfinished, due]

theorem poll_of_early (lives : a.cancelled = false) (unfinished : body.finish = none)
    (early : ¬a.due.getD (dueAfter now a.limit) ≤ now) : a.poll now body = { a with
      due := some (a.due.getD (dueAfter now a.limit))
      cancelled := body.cancels
      turns := a.turns ++ [(now, body)]
      gaveUp := false
      outcome := none } := by
  simp [poll, Moment.cancelledAfter, Moment.verdict, lives, unfinished, early]

theorem poll_turns (a : Attempt) (now : Nat) (body : BodyTurn) : (a.poll now body).turns =
    if a.cancelled = true then a.turns else a.turns ++ [(now, body)] := by
  cases late : a.cancelled with
  | true => rw [poll_of_cancelled late, if_pos rfl]
  | false =>
    rw [if_neg Bool.false_ne_true]
    cases finish : body.finish with
    | some e => rw [poll_of_finish late finish]
    | none =>
      by_cases due : a.due.getD (dueAfter now a.limit) ≤ now
      · rw [poll_of_due late finish due]
      · rw [poll_of_early late finish due]

/-- Where the cancellation of the token comes from, after any stimuli. -/
structure Traced (limit : Duration) (before : Bool) (stimuli : List Stimulus) (a : Attempt) :
    Prop where
  limit_eq : a.limit = limit
  gaveUp : a.gaveUp = true ↔ a.outcome = some (.failed (.timeout limit))
  cancelled : a.cancelled = true ↔ before = true ∨ .cancel ∈ stimuli ∨
    (∃ t ∈ a.turns, t.2.cancels = true) ∨ a.gaveUp = true

theorem run_append (a : Attempt) (earlier later : List Stimulus) :
    a.run (earlier ++ later) = (a.run earlier).run later :=
  List.foldl_append

theorem outcome_ne_timeout (e : BodyEnd) (limit : Duration) :
    e.outcome ≠ .failed (.timeout limit) := by
  cases e with
  | completed | error | panicked => nofun

theorem Traced.poll (h : Traced limit before stimuli a) (unsettled : a.outcome = none) (now : Nat)
    (body : BodyTurn) :
    Traced limit before (stimuli ++ [.poll now body]) (a.poll now body) := by
  have hgaveUp : a.gaveUp = false := by
    simpa [unsettled] using h.gaveUp
  have hcancelled := h.cancelled
  obtain rfl := h.limit_eq
  cases late : a.cancelled with
  | true =>
    rw [poll_of_cancelled late]
    refine ⟨rfl, by simp, ?_⟩
    simpa [hgaveUp] using hcancelled
  | false =>
    simp only [late, hgaveUp, Bool.false_eq_true, false_iff, not_or, or_false] at hcancelled
    obtain ⟨hbefore, houtside, hturns⟩ := hcancelled
    -- so far nobody has cancelled, and the body may do it now
    have hbody : body.cancels = true ↔ before = true ∨ .cancel ∈ stimuli ++ [.poll now body] ∨
        (∃ t ∈ a.turns ++ [(now, body)], t.2.cancels = true) ∨ false = true := by
      simp only [List.mem_append, List.mem_singleton, or_and_right, exists_or, hturns]
      simp [hbefore, houtside]
    cases finish : body.finish with
    | some e =>
      rw [poll_of_finish late finish]
      exact ⟨rfl, by simp [outcome_ne_timeout], hbody⟩
    | none =>
      by_cases due : a.due.getD (dueAfter now a.limit) ≤ now
      · rw [poll_of_due late finish due]
        exact ⟨rfl, by simp, by simp⟩
      · rw [poll_of_early late finish due]
        exact ⟨rfl, by simp, hbody⟩

theorem Traced.apply (h : Traced limit before stimuli a) (s : Stimulus) :
    Traced limit before (stimuli ++ [s]) (a.apply s) := by
  cases s with
  | cancel => exact ⟨h.limit_eq, h.gaveUp, by simp [Attempt.apply]⟩
  | poll now body =>
    rw [Attempt.apply]
    cases unsettled : a.outcome with
    | none => exact h.poll unsettled now body
    | some o =>
      refine ⟨h.limit_eq, h.gaveUp, ?_⟩
      simpa using h.cancelled

theorem run_traced (limit : Duration) (before : Bool) (stimuli : List Stimulus) :
    Traced limit before stimuli ((new limit before).run stimuli) := by
  induction stimuli using List.reverseRecOn with
  | nil => exact ⟨rfl, by simp [run, new], by simp [run, new]⟩
  | append_singleton earlier s ih =>
    rw [run_append]
    exact ih.apply s

theorem run_of_cancelled (late : a.cancelled = true) (stimuli : List Stimulus) :
    (a.run stimuli).turns = a.turns := by
  induction stimuli generalizing a with
  | nil => rfl
  | cons s rest ih =>
    have hstep : (a.apply s).cancelled = true ∧ (a.apply s).turns = a.turns := by
      cases s with
      | cancel => exact ⟨rfl, rfl⟩
      | poll now body =>
        rw [apply]
        split
        · exact ⟨late, rfl⟩
        · rw [poll_of_cancelled late]
          exact ⟨late, rfl⟩
    exact (ih hstep.1).trans hstep.2

theorem run_of_settled (settled : a.outcome = some o) (stimuli : List Stimulus) :
    (a.run stimuli).outcome = some o ∧ (a.run stimuli).turns = a.turns := by
  induction stimuli generalizing a with
  | nil => exact ⟨settled, rfl⟩
  | cons s rest ih =>
    have hstep : (a.apply s).outcome = some o ∧ (a.apply s).turns = a.turns := by
      cases s with
      | cancel => exact ⟨settled, rfl⟩
      | poll now body => simp [apply, settled]
    obtain ⟨hrest, hturns⟩ := ih hstep.1
    exact ⟨hrest, hturns.trans hstep.2⟩

structure Pending (limit : Duration) (before : Bool) (stimuli : List Stimulus) (a : Attempt) :
    Prop where
  traced : Traced limit before stimuli a
  due : ∀ now, a.due.getD (dueAfter now limit) = dueAfter (began stimuli now) limit
  turns : a.turns = polls stimuli
  outcome : a.outcome = none

namespace Pending

theorem cancelled_iff (h : Pending limit before stimuli a) :
    a.cancelled = true ↔ Cancelled before stimuli := by
  have hgaveUp : a.gaveUp = false := by
    simpa [h.outcome] using h.traced.gaveUp
  rw [h.traced.cancelled, h.turns, hgaveUp, Cancelled]
  simp

theorem poll_outcome_iff (h : Pending limit before stimuli a) (now : Nat) (body : BodyTurn)
    (o : Outcome) : (a.poll now body).outcome = some o ↔
      Settles limit before stimuli now body o := by
  have hcancelled := h.cancelled_iff
  have hdue := h.due now
  obtain rfl := h.traced.limit_eq
  cases late : a.cancelled with
  | true =>
    rw [settles_of_cancelled (hcancelled.1 late), poll_of_cancelled late, Option.some.injEq]
    exact eq_comm
  | false =>
    have lives : ¬Cancelled before stimuli := fun h => by simp [hcancelled.2 h] at late
    cases finish : body.finish with
    | some e =>
      rw [settles_of_finish lives finish, poll_of_finish late finish, Option.some.injEq]
      exact eq_comm
    | none =>
      rw [settles_of_unfinished lives finish]
      by_cases due : a.due.getD (dueAfter now a.limit) ≤ now
      · rw [poll_of_due late finish due, ← hdue, Option.some.injEq]
        simp [due, eq_comm]
      · rw [poll_of_early late finish due, ← hdue]
        simp [due]

theorem apply_poll (h : Pending limit before stimuli a) (now : Nat) (body : BodyTurn) :
    a.apply (.poll now body) = a.poll now body := by
  rw [Attempt.apply, h.outcome]
  rfl

theorem spares_poll (h : Pending limit before stimuli a)
    (unsettled : (a.poll now body).outcome = none) :
    Spares limit before stimuli (.poll now body) := by
  intro later body' hsame o settles
  obtain ⟨rfl, rfl⟩ := Stimulus.poll.inj hsame
  simp [(h.poll_outcome_iff now body o).2 settles] at unsettled

theorem apply (h : Pending limit before stimuli a) {s : Stimulus}
    (spares : Spares limit before stimuli s) :
    Pending limit before (stimuli ++ [s]) (a.apply s) := by
  have htraced := h.traced.apply s
  cases s with
  | cancel =>
    refine ⟨htraced, ?_, by simp [Attempt.apply, h.turns], h.outcome⟩
    intro now
    rw [began_cancel]
    exact h.due now
  | poll now body =>
    have hnone : (a.poll now body).outcome = none := by
      apply Option.eq_none_iff_forall_ne_some.2
      intro o ho
      exact spares now body rfl o ((h.poll_outcome_iff now body o).1 ho)
    have hdue : (a.poll now body).due = some (dueAfter (began stimuli now) limit) := by
      rw [← h.due now, ← h.traced.limit_eq]
      rfl
    have hturns : (a.poll now body).turns = a.turns ++ [(now, body)] := by
      have lives := mt h.cancelled_iff.1 fun late => spares now body rfl _ (.cancelled late)
      rw [poll_turns, if_neg lives]
    rw [h.apply_poll] at htraced ⊢
    refine ⟨htraced, ?_, by simp [hturns, h.turns], hnone⟩
    intro later
    rw [hdue, began_poll]
    rfl

end Pending

theorem Quiet.init {s : Stimulus} (h : Quiet limit before (stimuli ++ [s])) :
    Quiet limit before stimuli := by
  rintro earlier now body later rfl o
  exact h earlier now body (later ++ [s]) (by simp) o

theorem Quiet.append {s : Stimulus} (h : Quiet limit before stimuli)
    (spares : Spares limit before stimuli s) : Quiet limit before (stimuli ++ [s]) := by
  intro earlier now body later split o
  rcases List.eq_nil_or_concat later with rfl | ⟨later, u, rfl⟩
  · obtain ⟨rfl, hlast⟩ := List.append_inj' split rfl
    exact spares now body (List.singleton_inj.1 hlast) o
  · apply h earlier now body later _ o
    rw [List.concat_eq_append, ← List.cons_append, ← List.append_assoc] at split
    exact (List.append_inj' split rfl).1

theorem spares_cancel : Spares limit before stimuli .cancel := by
  intro now body hsame
  cases hsame

theorem run_pending (quiet : Quiet limit before stimuli) :
    Pending limit before stimuli ((new limit before).run stimuli) := by
  induction stimuli using List.reverseRecOn with
  | nil => exact ⟨run_traced limit before [], fun now => rfl, rfl, rfl⟩
  | append_singleton earlier s ih =>
    rw [run_append]
    apply (ih quiet.init).apply
    rintro now body rfl
    exact quiet earlier now body [] rfl

theorem exists_settlesFirst (h : ¬Quiet limit before stimuli) :
    ∃ earlier now body o, SettlesFirst limit before stimuli earlier now body o := by
  induction stimuli using List.reverseRecOn with
  | nil => exact absurd (fun earlier now body later split => by simp at split) h
  | append_singleton earlier s ih =>
    by_cases quiet : Quiet limit before earlier
    · -- nothing was ready before, so something is ready at the last one
      by_contra hnone
      apply h
      apply quiet.append
      rintro now body rfl o settles
      exact hnone ⟨earlier, now, body, o, ⟨[], rfl⟩, quiet, settles⟩
    · obtain ⟨start, now, body, o, ⟨later, rfl⟩, hquiet, settles⟩ := ih quiet
      exact ⟨start, now, body, o, ⟨later ++ [s], by simp⟩, hquiet, settles⟩

theorem quiet_of_polls_nil (none : polls stimuli = []) : Quiet limit before stimuli := by
  rintro earlier now body later rfl o
  rw [polls, List.filterMap_append] at none
  exact absurd (List.append_eq_nil_iff.1 none).2 (List.cons_ne_nil _ _)

/-- An attempt is settled at the first poll at which something is ready, and by what is ready then;
its body gets a turn in every poll up to this one, and in this one unless the token was cancelled
before. Once the token is cancelled the body gets no turn, and none at all if that was before the
first poll. The attempt gives up on a timeout alone, and the token is cancelled exactly if it was
from the start, or is from outside, by the body in one of its turns, or by an attempt that gives
up. -/
theorem run_settles (limit : Duration) (before : Bool) (stimuli : List Stimulus) :
    (∀ o, ((new limit before).run stimuli).outcome = some o ↔
      ∃ earlier now body, SettlesFirst limit before stimuli earlier now body o) ∧
    (((new limit before).run stimuli).outcome = none →
      ((new limit before).run stimuli).turns = polls stimuli) ∧
    (∀ earlier now body o, SettlesFirst limit before stimuli earlier now body o →
      (Cancelled before earlier → ((new limit before).run stimuli).turns = polls earlier) ∧
      (¬Cancelled before earlier →
        ((new limit before).run stimuli).turns = polls earlier ++ [(now, body)])) ∧
    (∀ earlier later, stimuli = earlier ++ later →
      (((new limit before).run earlier).cancelled = true →
        ((new limit before).run stimuli).turns = ((new limit before).run earlier).turns) ∧
      (polls earlier = [] → Cancelled before earlier →
        ((new limit before).run stimuli).turns = [])) ∧
    (((new limit before).run stimuli).gaveUp = true ↔
      ((new limit before).run stimuli).outcome = some (.failed (.timeout limit))) ∧
    (((new limit before).run stimuli).cancelled = true ↔ before = true ∨ .cancel ∈ stimuli ∨
      (∃ t ∈ ((new limit before).run stimuli).turns, t.2.cancels = true) ∨
        ((new limit before).run stimuli).gaveUp = true) := by
  have htraced := run_traced limit before stimuli
  -- what a poll settles is what the run comes to
  have hfirst : ∀ {earlier now body o}, SettlesFirst limit before stimuli earlier now body o →
      ((new limit before).run stimuli).outcome = some o ∧
        ((new limit before).run stimuli).turns =
          (((new limit before).run earlier).poll now body).turns := by
    rintro earlier now body o ⟨⟨later, rfl⟩, quiet, settles⟩
    have hpending := run_pending quiet
    rw [run_append, run, List.foldl_cons, hpending.apply_poll]
    exact run_of_settled ((hpending.poll_outcome_iff now body o).2 settles) later
  refine ⟨fun o => ⟨fun ho => ?_, ?_⟩, fun hnone => ?_, fun earlier now body o first => ?_, ?_,
    htraced.gaveUp, htraced.cancelled⟩
  · by_cases quiet : Quiet limit before stimuli
    · simp [(run_pending quiet).outcome] at ho
    · obtain ⟨earlier, now, body, o', first⟩ := exists_settlesFirst quiet
      obtain rfl := Option.some.inj ((hfirst first).1.symm.trans ho)
      exact ⟨earlier, now, body, first⟩
  · rintro ⟨earlier, now, body, first⟩
    exact (hfirst first).1
  · by_cases quiet : Quiet limit before stimuli
    · exact (run_pending quiet).turns
    · obtain ⟨earlier, now, body, o, first⟩ := exists_settlesFirst quiet
      simp [(hfirst first).1] at hnone
  · have hpending := run_pending first.quiet
    rw [(hfirst first).2, poll_turns, hpending.turns]
    constructor
    · intro late
      rw [if_pos (hpending.cancelled_iff.2 late)]
    · intro lives
      rw [if_neg (mt hpending.cancelled_iff.1 lives)]
  · rintro earlier later rfl
    have hlater : ((new limit before).run earlier).cancelled = true →
        ((new limit before).run (earlier ++ later)).turns =
          ((new limit before).run earlier).turns := by
      intro late
      rw [run_append]
      exact run_of_cancelled late later
    refine ⟨hlater, fun hpolls late => ?_⟩
    have hpending : Pending limit before earlier _ := run_pending (quiet_of_polls_nil hpolls)
    rw [hlater (hpending.cancelled_iff.2 late), hpending.turns, hpolls]

example : ((new ⟨1, 0, by decide, by decide⟩ false).run
    [.poll 5 .idle, .poll 1005 ⟨false, some (.completed .empty)⟩]).outcome =
      some (.completed .empty) := rfl

end Attempt

open Attempt

theorem Solo.run_ends {script : Script} {cancelAt : Option Nat} {limit : Duration}
    {before : Bool} {e : SoloEnd} (polls : Nat) {stimuli : List Stimulus} {s : Solo}
    (quiet : Quiet limit before stimuli) (pending : Pending limit before stimuli s.attempt)
    (h : Solo.run script cancelAt polls s = some e) : ∃ earlier body,
      Quiet limit before earlier ∧ Settles limit before earlier e.endedAt body e.outcome := by
  induction polls generalizing stimuli s with
  | zero => cases h
  | succ polls ih =>
    rw [Solo.run] at h
    generalize script.turn s.now s.state = t at h
    obtain ⟨body, state⟩ := t
    cases settled : (s.attempt.poll s.now body).outcome with
    | some o =>
      simp only [pending.apply_poll, settled] at h
      obtain rfl := Option.some.inj h
      exact ⟨stimuli, body, quiet, (pending.poll_outcome_iff s.now body o).1 settled⟩
    | none =>
      have spares := pending.spares_poll settled
      have hpending := pending.apply spares
      have hquiet := quiet.append spares
      simp only [pending.apply_poll, settled] at h hpending
      -- it may be cancelled from outside before the next poll
      obtain ⟨heard, hquiet', hpending'⟩ : ∃ heard, Quiet limit before heard ∧
          Pending limit before heard (if cancelAt.any fun t => t ≤ s.now then
            (s.attempt.poll s.now body).apply .cancel else s.attempt.poll s.now body) := by
        split
        · exact ⟨_, hquiet.append spares_cancel, hpending.apply spares_cancel⟩
        · exact ⟨_, hquiet, hpending⟩
      generalize (if cancelAt.any fun t => t ≤ s.now then
        (s.attempt.poll s.now body).apply .cancel else s.attempt.poll s.now body) = a at h hpending'
      by_cases late : a.cancelled = true
      · rw [if_pos late] at h
        exact ih hquiet' hpending' h
      · rw [if_neg late] at h
        split at h
        · cases h
        · exact ih hquiet' hpending' h

theorem solo_settles {script : Script} {limit : Duration} {preCancelled : Bool}
    {cancelAt : Option Nat} {e : SoloEnd} (h : solo script limit preCancelled cancelAt = some e) :
    ∃ earlier body, Quiet limit preCancelled earlier ∧
      Settles limit preCancelled earlier e.endedAt body e.outcome := by
  have quiet : Quiet limit preCancelled [] := quiet_of_polls_nil rfl
  exact Solo.run_ends 5 quiet (run_pending quiet) h

/-- What settles a poll is what a worker reports at the turn that this poll is. -/
theorem Worker.turn_reported {w : Worker} {t : Token} {x : Execution} {a : Attempt} {now : Nat}
    {body : BodyTurn} {o : Outcome} (found : w.execution? t = some x)
    (limit_eq : a.limit = w.config.timeout) (cancelled_eq : a.cancelled = w.isCancelled t)
    (settled : (a.poll now body).outcome = some o) (elapsed : Duration) :
    .reported x.token (o.toResult x.request.taskId elapsed) ∈
      (w.turn t body (a.due.getD (dueAfter now a.limit) ≤ now) elapsed).2 := by
  have houtcome : ((w.moment t body (a.due.getD (dueAfter now a.limit) ≤ now)).verdict
      w.config.timeout).outcome = some o := by
    rw [Worker.moment, ← limit_eq, ← cancelled_eq]
    exact settled
  simp only [turn, found, houtcome]
  rw [Change.next_snd, finish, Change.next_snd]
  apply List.mem_append_right
  apply List.mem_append_right
  exact List.mem_singleton_self _

end BoundedWorker
