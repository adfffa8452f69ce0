import BoundedWorker.Proofs.Lines
import BoundedWorker.Proofs.Slots

/-!
The order in which submissions start. Those who wait stand in the order in which they came, and
slots are given to them in this order. Whoever has been given one still has to take its turn before
it starts, so when somebody starts nobody is passed over who has no slot. If nobody at all is passed
over, submissions start in the order in which they reserved their resources.
-/

namespace BoundedWorker

def Waiter.Before (v u : Waiter) : Prop := v.call < u.call ∧ (u.granted = true → v.granted = true)

theorem call_lt_of_granted {vs : List Waiter} (h : vs.Pairwise Waiter.Before) {v u : Waiter}
    (hv : v ∈ vs) (hu : u ∈ vs) (granted : v.granted = true) (none : u.granted = false) :
    v.call < u.call := by
  induction h with
  | nil => cases hv
  | @cons first rest before _ ih =>
    rcases List.mem_cons.1 hv with rfl | hlater
    · rcases List.mem_cons.1 hu with rfl | hlater
      · simp [granted] at none
      · exact (before u hlater).1
    · rcases List.mem_cons.1 hu with rfl | hlater'
      · exact absurd ((before v hlater).2 granted) (by simp [none])
      · exact ih hlater hlater'

theorem grantFirst_before {vs : List Waiter} (h : vs.Pairwise Waiter.Before) :
    (Worker.grantFirst vs).1.Pairwise Waiter.Before ∧
      ∀ u ∈ (Worker.grantFirst vs).1, ∃ v ∈ vs, v.call = u.call := by
  induction h with
  | nil => exact ⟨.nil, nofun⟩
  | @cons v rest before hrest ih =>
    obtain ⟨hpairs, hcalls⟩ := ih
    rw [Worker.grantFirst]
    cases granted : v.granted with
    | true =>
      refine ⟨List.pairwise_cons.2 ⟨fun u hu => ?_, hpairs⟩, fun u hu => ?_⟩
      · obtain ⟨x, hx, hcall⟩ := hcalls u hu
        exact ⟨hcall ▸ (before x hx).1, fun _ => granted⟩
      · rcases List.mem_cons.1 hu with rfl | hu
        · exact ⟨u, List.mem_cons_self, rfl⟩
        · obtain ⟨x, hx, hcall⟩ := hcalls u hu
          exact ⟨x, List.mem_cons_of_mem _ hx, hcall⟩
    | false =>
      refine ⟨List.pairwise_cons.2 ⟨fun u hu => ⟨(before u hu).1, fun _ => rfl⟩, hrest⟩, ?_⟩
      intro u hu
      rcases List.mem_cons.1 hu with rfl | hu
      · exact ⟨v, List.mem_cons_self, rfl⟩
      · exact ⟨u, List.mem_cons_of_mem _ hu, rfl⟩

def Event.resumed? : Event → Option Token
  | .resume call _ => some call
  | _ => none

theorem Event.resumed?_of_request {e : Event} {asks : TaskRequest × Nat}
    (asked : e.request? = some asks) : e.resumed? = none := by
  cases e with
  | resume call now => cases asked
  | _ => rfl

/-- What a step does to the slots, who is woken, who starts and who leaves. -/
structure Passage where
  slots : Slots
  woken : List Token
  launched : List Token
  left : List Token

def Change.passage (c : Change) : Passage := ⟨c.1.slots, woken c.2, launches c.2, lefts c.2⟩

theorem woken_append (earlier later : List Notice) :
    woken (earlier ++ later) = woken earlier ++ woken later := List.filterMap_append

theorem Change.passage_next {w : Worker} {notices : List Notice} {f : Worker → Change}
    (hwoken : woken notices = []) (hlaunches : launches notices = [])
    (hlefts : lefts notices = []) :
    (Change.next (w, notices) f).passage = (f w).passage := by
  rw [passage, Change.next_snd, woken_append, launches_append, lefts_append, hwoken, hlaunches,
    hlefts]
  rfl

theorem Change.passage_eq {c : Change} {s : Slots} {called : List Token} {r : Roll}
    {tales : List Notice} (hslots : slotView.of c = (s, called))
    (hroll : rollView.of c = (r, tales)) :
    c.passage = ⟨s, called, launches tales, lefts tales⟩ := by
  have hs : c.1.slots = s := congrArg Prod.fst hslots
  have hcalled : woken c.2 = called := congrArg Prod.snd hslots
  have htales : c.2.filterMap Notice.tale? = tales := congrArg Prod.snd hroll
  rw [passage, hs, hcalled, ← htales, launches_tales, lefts_tales]

/-- The ways in which an event changes slots that are handed out, with those who reserve. -/
inductive Slots.Shift (s : Slots) : Event → List Token → Passage → Prop where
  | stay {e : Event} (idle : ∀ v ∈ s.waiters, e.resumed? = some v.call → v.granted = false) :
      Shift s e [] ⟨s, [], [], []⟩
  | number {e : Event} (new : e.resumed? = none) {left : List Token}
      (own : ∀ call ∈ left, call = s.calls) :
      Shift s e [] ⟨{ s with calls := s.calls + 1 }, [], [], left⟩
  | queue {e : Event} {asks : TaskRequest × Nat} (asked : e.request? = some asks)
      (r : TaskRequest) (full : s.free = 0) : Shift s e [s.calls] ⟨s.queue r, [], [], []⟩
  | take {e : Event} {asks : TaskRequest × Nat} (asked : e.request? = some asks)
      (free : 0 < s.free) : Shift s e [s.calls] ⟨s.take, [], [s.calls], []⟩
  | launch {v : Waiter} (mem : v ∈ s.waiters) (granted : v.granted = true) (now : Nat) :
      Shift s (.resume v.call now) [] ⟨(s.without v.call).launch v.call, [], [v.call], []⟩
  | abandon {v : Waiter} (mem : v ∈ s.waiters) :
      Shift s (.abandon v.call) [] ⟨(s.leave v).1, (s.leave v).2, [], [v.call]⟩
  | ended {t : Token} (mem : t ∈ s.running) (body : BodyTurn) (expired : Bool)
      (elapsed : Duration) :
      Shift s (.turn t body expired elapsed) [] ⟨(s.ended t).back.1, (s.ended t).back.2, [], []⟩
  | close {e : Event} (calls : Nat) (le : s.calls ≤ calls) (called : List Token) :
      Shift s e [] ⟨{ s.close with calls }, called, [], []⟩

namespace Slots

theorem Shift.still {s : Slots} {e : Event} (new : e.resumed? = none) :
    s.Shift e [] ⟨s, [], [], []⟩ :=
  .stay fun _ _ hresumed => by simp [new] at hresumed

def line (s : Slots) (reserved launched left : List Token) : Line :=
  ⟨s.calls, s.waiters.map Waiter.call, reserved, launched, left⟩

theorem back_line (s : Slots) (reserved launched left : List Token) :
    s.back.1.line reserved launched left = s.line reserved launched left := by
  rcases s.back_cases with ⟨hback, -⟩ | ⟨before, v, after, hw, -, hback⟩
  · rw [hback]
    rfl
  · rw [hback, line, line, hw]
    simp

theorem without_line (s : Slots) (call : Token) (reserved launched left : List Token) :
    (s.without call).line reserved launched left =
      { s.line reserved launched left with
        waiting := (s.waiters.map Waiter.call).filter (· ≠ call) } := by
  rw [line, without, List.filter_map]
  rfl

theorem leave_line (s : Slots) (v : Waiter) (reserved launched left : List Token) :
    (s.leave v).1.line reserved launched left =
      (s.without v.call).line reserved launched left := by
  rw [leave]
  split
  · exact back_line ..
  · rfl

theorem Shift.ordered {s : Slots} {e : Event} {more : List Token} {p : Passage}
    (h : s.Shift e more p) {reserved launched left : List Token}
    (hl : (s.line reserved launched left).Ordered)
    (first : ∀ call ∈ p.launched, ∀ v ∈ p.slots.waiters, call < v.call) :
    (p.slots.line (reserved ++ more) (launched ++ p.launched) (left ++ p.left)).Ordered := by
  cases h with
  | stay => simpa using hl
  | number new own => simpa [line, Line.number] using hl.number own
  | queue asked r full => simpa [line, Line.queue, Slots.queue] using hl.queue
  | take asked free =>
    have hfirst : ∀ other ∈ s.waiters.map Waiter.call, s.calls < other :=
      List.forall_mem_map.2 (first s.calls (List.mem_singleton_self _))
    simpa [line, Line.start, Slots.take, Slots.launch] using hl.start hfirst
  | @launch v mem granted now =>
    have hfirst : ∀ other ∈ s.waiters.map Waiter.call, other ≠ v.call → v.call < other :=
      List.forall_mem_map.2 fun u hu hne => first v.call (List.mem_singleton_self _) u
        (List.mem_filter.2 ⟨hu, decide_eq_true hne⟩)
    have hlaunch := hl.launch (List.mem_map_of_mem mem) hfirst
    rw [List.append_nil, List.append_nil]
    exact (s.without_line v.call reserved (launched ++ [v.call]) left) ▸ hlaunch
  | @abandon v mem =>
    have hleave := hl.leave (List.mem_map_of_mem mem)
    rw [List.append_nil, List.append_nil, leave_line, without_line]
    exact hleave
  | ended mem body expired elapsed =>
    rw [List.append_nil, List.append_nil, List.append_nil, back_line]
    exact hl
  | close calls le called =>
    rw [List.append_nil, List.append_nil, List.append_nil]
    exact hl.later le

theorem Shift.before {s : Slots} {e : Event} {more : List Token} {p : Passage}
    (h : s.Shift e more p) (hd : s.Distinct) (before : s.waiters.Pairwise Waiter.Before) :
    p.slots.waiters.Pairwise Waiter.Before := by
  have hback : ∀ s : Slots, s.waiters.Pairwise Waiter.Before →
      s.back.1.waiters.Pairwise Waiter.Before := by
    intro s hs
    have hgrant := (grantFirst_before hs).1
    rw [back]
    cases s.closed with
    | true => exact hs
    | false =>
      generalize Worker.grantFirst s.waiters = c at hgrant ⊢
      obtain ⟨waiters, _ | call⟩ := c
      · exact hs
      · exact hgrant
  cases h with
  | stay => exact before
  | number => exact before
  | queue asked r full =>
    refine List.pairwise_append.2 ⟨before, List.pairwise_singleton _ _, fun v hv u hu => ?_⟩
    obtain rfl := List.mem_singleton.1 hu
    exact ⟨hd.waiters_lt v hv, fun granted => absurd granted Bool.false_ne_true⟩
  | take => exact before
  | launch => exact before.filter _
  | @abandon v mem =>
    rw [leave]
    split
    · exact hback _ (before.filter _)
    · exact before.filter _
  | ended => exact hback _ before
  | close => exact before

theorem Shift.granted {s : Slots} {e : Event} {more : List Token} {p : Passage}
    (h : s.Shift e more p) (before : s.waiters.Pairwise Waiter.Before)
    (handed : 0 < s.free → ∀ v ∈ s.waiters, v.granted = true) :
    ∀ call ∈ p.launched, ∀ v ∈ p.slots.waiters, v.call < call → v.granted = true := by
  cases h with
  | take asked free => exact fun _ _ v hv _ => handed free v hv
  | @launch u mem granted now =>
    intro call hcall v hv hlt
    obtain rfl := List.mem_singleton.1 hcall
    by_contra hnone
    have hafter := call_lt_of_granted before mem (List.mem_filter.1 hv).1 granted
      (eq_false_of_ne_true hnone)
    exact Nat.lt_asymm hlt hafter
  | _ => nofun

theorem Shift.passes_of_one {s : Slots} {e : Event} {more : List Token} {p : Passage}
    (h : s.Shift e more p) {woken : List Token} (kept : s.Kept 1 woken) (isOpen : s.closed = false)
    (hd : s.Distinct) (before : s.waiters.Pairwise Waiter.Before) :
    ∀ call ∈ p.launched, ∀ v ∈ p.slots.waiters, call < v.call := by
  have hbalance : s.free + (s.waiters.countP (·.granted) + s.running.length) = 1 := kept.balance
  cases h with
  | take asked free =>
    intro _ _ v hv
    have hheld : 0 < s.waiters.countP (·.granted) :=
      List.countP_pos_iff.2 ⟨v, hv, kept.handed isOpen free v hv⟩
    omega
  | @launch v mem granted now =>
    intro call hcall u hu
    obtain rfl := List.mem_singleton.1 hcall
    cases hgranted : u.granted with
    | true =>
      have hcount : s.waiters.countP (·.granted) =
          (s.waiters.filter (·.call ≠ v.call)).countP (·.granted) + 1 :=
        ((perm_cons_filter hd.waiters_nodup mem).countP_eq _).trans
          (List.countP_cons_of_pos granted)
      have hother : 0 < (s.waiters.filter (·.call ≠ v.call)).countP (·.granted) :=
        List.countP_pos_iff.2 ⟨u, hu, hgranted⟩
      omega
    | false => exact call_lt_of_granted before mem (List.mem_filter.1 hu).1 granted hgranted
  | _ => nofun

end Slots

namespace Worker

variable {w : Worker}

def reserves (w : Worker) (e : Event) : List Token :=
  match e.request? with
  | none => []
  | some (r, now) => if !w.dropped && (w.decide r now).isOk then [w.calls] else []

theorem reserves_of_ok (remains : w.dropped = false) {e : Event} {r : TaskRequest} {now : Nat}
    {ledger : Ledger} (asked : e.request? = some (r, now)) (decided : w.decide r now = .ok ledger) :
    w.reserves e = [w.calls] := by
  simp [reserves, asked, remains, decided, Except.isOk, Except.toBool]

theorem reserves_of_error {e : Event} {r : TaskRequest} {now : Nat} {refusal : Refusal}
    (asked : e.request? = some (r, now)) (decided : w.decide r now = .error refusal) :
    w.reserves e = [] := by
  simp [reserves, asked, decided, Except.isOk, Except.toBool]

section Shifts

variable (hw : w.Serving)

include hw

theorem submit_shift {e : Event} {r : TaskRequest} {now : Nat}
    (asked : e.request? = some (r, now)) :
    w.slots.Shift e (w.reserves e) (w.submit r now).passage := by
  have hopened : w.opened.decide r now = w.decide r now := rfl
  rw [submit, hopened]
  cases decided : w.decide r now with
  | error refusal =>
    rw [reserves_of_error asked decided]
    exact .number (Event.resumed?_of_request asked) (reject_lefts w.calls refusal)
  | ok ledger =>
    rw [reserves_of_ok hw.remains asked decided]
    have hopen : (w.opened.reserved r ledger).slotsClosed = false := hw.isOpen
    have hfree : (w.opened.reserved r ledger).freeSlots = w.freeSlots := rfl
    have haccept : (w.opened.reserved r ledger).slotTaken.accepting = true := hw.accepts
    simp only [acquire, hopen, hfree, Bool.false_eq_true, if_false]
    split
    · rename_i free
      simp only [Worker.launch, haccept, Bool.not_true, Bool.false_eq_true, if_false]
      have hslots : slots ((w.opened.reserved r ledger).slotTaken.launched w.calls r now) =
          w.slots.take := launched_slots ..
      change w.slots.Shift e _ ⟨slots _, _, _, _⟩
      rw [hslots]
      exact .take asked free
    · rename_i full
      exact .queue asked r (Nat.eq_zero_of_not_pos full)

theorem message_shift (m : AgentMessage) (freshId : String) (now : Nat) :
    w.slots.Shift (.message m freshId now) (w.reserves (.message m freshId now))
      (w.message m freshId now).passage := by
  rw [message]
  cases hm : m.dispatch freshId with
  | request r => exact submit_shift hw (by simp [Event.request?, hm])
  | malformed fault =>
    rw [reserves, Event.request?, hm]
    exact .number rfl fun _ mem => absurd mem List.not_mem_nil
  | unhandled =>
    rw [reserves, Event.request?, hm]
    exact .number rfl fun _ mem => absurd mem List.not_mem_nil

theorem resume_shift (hd : w.slots.Distinct) (call : Token) (now : Nat) :
    w.slots.Shift (.resume call now) [] (w.resume call now).passage := by
  rw [Worker.resume]
  cases found : w.waiter? call with
  | none =>
    refine .stay fun v mem hresumed => ?_
    obtain rfl := Option.some_inj.1 hresumed
    exact absurd rfl (waiter?_eq_none_iff.1 found v mem)
  | some v =>
    obtain ⟨hmem, rfl⟩ := waiter?_mem found
    have mem : v ∈ w.slots.waiters := List.mem_of_find?_eq_some found
    simp only [hw.isOpen, Bool.false_eq_true, if_false]
    cases granted : v.granted with
    | true =>
      have haccept : (w.unqueued v.call).accepting = true := hw.accepts
      simp only [Worker.launch, haccept, Bool.not_true, Bool.false_eq_true, if_false, if_true]
      have hslots : ((w.unqueued v.call).launched v.call v.request now).slots =
          (w.slots.without v.call).launch v.call := launched_slots ..
      change w.slots.Shift _ _ ⟨slots _, _, _, _⟩
      rw [hslots]
      exact .launch mem granted now
    | false =>
      refine .stay fun u hu hresumed => ?_
      have hcall : v.call = u.call := Option.some_inj.1 hresumed
      exact List.inj_on_of_nodup_map hd.waiters_nodup mem hu hcall ▸ granted

end Shifts

theorem abandon_shift (call : Token) :
    w.slots.Shift (.abandon call) [] (w.abandon call).passage := by
  rw [Worker.abandon]
  cases found : w.waiter? call with
  | none => exact .still rfl
  | some v =>
    obtain ⟨hmem, rfl⟩ := waiter?_mem found
    have mem : v ∈ w.slots.waiters := List.mem_of_find?_eq_some found
    have hslots := slotView.next_eq (c := (w.leaveQueue v).next fun w =>
      w.endTicket v.request false) (f := fun w => (w, [.abandoned v.call])) fun _ => rfl
    rw [leave_slots] at hslots
    have hroll := next_abandoned_roll ((w.leaveQueue v).next fun w => w.endTicket v.request false)
      v.call
    rw [leave_roll] at hroll
    rw [Change.passage_eq hslots hroll]
    exact .abandon mem

theorem quiet_beginning (x : Execution) (v : Verdict) : woken (beginning x v) = [] ∧
    launches (beginning x v) = [] ∧ lefts (beginning x v) = [] := by
  rw [beginning]
  split <;> exact ⟨rfl, rfl, rfl⟩

theorem turn_shift (t : Token) (body : BodyTurn) (expired : Bool) (elapsed : Duration) :
    w.slots.Shift (.turn t body expired elapsed) [] (w.turn t body expired elapsed).passage := by
  have hstay : w.slots.Shift (.turn t body expired elapsed) [] ⟨w.slots, [], [], []⟩ :=
    .still rfl
  rw [turn]
  cases found : w.execution? t with
  | none => exact hstay
  | some x =>
    obtain ⟨hmem, rfl⟩ := execution?_mem found
    dsimp only
    generalize w.cancels (w.moment x.token body expired) = cancels
    generalize (w.moment x.token body expired).verdict w.config.timeout = v
    obtain ⟨hwoken, hlaunches, hlefts⟩ := quiet_beginning x v
    have hslots : (w.cancelledIf cancels x.token).slots = w.slots := w.cancelledIf_slots _ _
    cases v.outcome with
    | none =>
      have hquiet : Change.passage ((w.cancelledIf cancels x.token).carriedOn x.token,
          beginning x v ++ if cancels then [.roused x.token] else []) =
            ⟨w.slots, [], [], []⟩ := by
        rw [Change.passage, carriedOn_slots, hslots, woken_append, launches_append, lefts_append,
          hwoken, hlaunches, hlefts]
        cases cancels <;> rfl
      exact hquiet ▸ hstay
    | some o =>
      have hfinish := Change.passage_eq (finish_slots (w.cancelledIf cancels x.token) x o elapsed)
        (finish_roll (w.cancelledIf cancels x.token) x o elapsed)
      have hpassage : Change.passage (Change.next (w.cancelledIf cancels x.token, beginning x v)
          fun w => w.finish x o elapsed) =
            ⟨(w.slots.ended x.token).back.1, (w.slots.ended x.token).back.2, [], []⟩ := by
        rw [Change.passage_next hwoken hlaunches hlefts, hfinish, hslots]
        rfl
      exact hpassage ▸ .ended (List.mem_map_of_mem (List.mem_of_find?_eq_some found)) body expired
        elapsed

theorem aside_shift {e : Event} (new : e.resumed? = none) {c : Change} (h : Aside w c) :
    w.slots.Shift e [] c.passage := by
  rw [Change.passage_eq (slotView.aside h) (rollView.aside h)]
  exact .still new

theorem step_shift (hw : w.Serving) (hd : w.slots.Distinct) (e : Event) :
    w.slots.Shift e (w.reserves e) (w.step e).passage := by
  cases e with
  | submit r now =>
    rw [step_request hw.remains rfl]
    exact submit_shift hw rfl
  | message m freshId now =>
    simp only [step, hw.remains, Bool.false_eq_true, if_false]
    exact message_shift hw m freshId now
  | resume call now => exact resume_shift hw hd call now
  | abandon call => exact abandon_shift call
  | turn t body expired elapsed => exact turn_shift t body expired elapsed
  | reportEnded t delivered => exact aside_shift rfl (w.reportEnded_aside t delivered)
  | shutdown =>
    obtain ⟨called, hstop, -⟩ := stop_move { w with
      calls := w.calls + 1
      cancelled := (if w.accepting then w.registry.tokens else []) ++ w.cancelled }
    rw [step_shutdown hw.remains,
      Change.passage_eq ((slotView.shutdown_eq w).trans hstop) w.shutdown_roll]
    exact .close (w.calls + 1) (Nat.le_succ _) called
  | resumeDrain call => exact aside_shift rfl (w.resumeDrain_aside call)
  | drop =>
    rw [step, Worker.drop]
    split
    · exact .still rfl
    · have lives : ¬w.stopped = true := by simp [hw.lives]
      obtain ⟨called, hstop, -⟩ := stop_move { w with dropped := true }
      rw [if_neg lives, Change.passage_eq hstop (stop_roll _)]
      exact .close w.calls le_rfl called

theorem reserves_of_refuses (refuses : w.accepting = false) (e : Event) : w.reserves e = [] := by
  rw [reserves]
  split
  · rfl
  · rename_i r now asked
    cases decided : w.decide r now with
    | error refusal => simp [Except.isOk, Except.toBool]
    | ok ledger => exact absurd (decide_eq_ok decided).1 (by simp [refuses])

theorem launches_of_closed (hs : w.Switched) (closed : w.slotsClosed = true) (e : Event) :
    launches (w.step e).2 = [] :=
  (launches_tales _).symm.trans (step_ebb (hs.stopped_of_closed closed) e).launches_eq

def PassesNobody (w : Worker) (e : Event) : Prop :=
  ∀ call ∈ launches (w.step e).2, ∀ v ∈ (w.step e).1.waiters, call < v.call

theorem step_ordered (hs : w.Switched) (hd : w.slots.Distinct) {reserved launched left : List Token}
    (hl : (w.slots.line reserved launched left).Ordered) {e : Event} (passes : w.PassesNobody e) :
    ((w.step e).1.slots.line (reserved ++ w.reserves e) (launched ++ launches (w.step e).2)
      (left ++ lefts (w.step e).2)).Ordered := by
  have hline : ∀ (w : Worker) reserved launched left,
      w.slots.line reserved launched left = w.roll.line reserved launched left := by
    intro w reserved launched left
    rw [Slots.line, Roll.line, roll, List.map_map]
    rfl
  cases closed : w.slotsClosed with
  | false => exact (step_shift (hs.serving_of_open closed) hd e).ordered hl passes
  | true =>
    have hstopped := hs.stopped_of_closed closed
    rw [reserves_of_refuses hstopped.refuses, launches_of_closed hs closed, List.append_nil,
      List.append_nil, hline, ← lefts_tales]
    exact (step_ebb hstopped e).ordered (hline w _ _ _ ▸ hl)

def reservations (w : Worker) : List Event → List Token
  | [] => []
  | e :: rest => w.reserves e ++ (w.step e).1.reservations rest

theorem reservations_snoc (w : Worker) (events : List Event) (e : Event) :
    w.reservations (events ++ [e]) = w.reservations events ++ (w.run events).1.reserves e := by
  induction events generalizing w with
  | nil => simp [reservations, run]
  | cons first rest ih => simp [reservations, run, Change.next, ih]

def KeepsOrder (w : Worker) (events : List Event) : Prop :=
  ∀ earlier e later, events = earlier ++ e :: later → (w.run earlier).1.PassesNobody e

theorem KeepsOrder.init {events : List Event} {e : Event} (h : w.KeepsOrder (events ++ [e])) :
    w.KeepsOrder events := by
  rintro earlier d later rfl
  exact h earlier d (later ++ [e]) (by simp)

theorem KeepsOrder.snoc {events : List Event} (h : w.KeepsOrder events) {e : Event}
    (passes : (w.run events).1.PassesNobody e) : w.KeepsOrder (events ++ [e]) := by
  intro earlier d later heq
  rcases List.eq_nil_or_concat later with rfl | ⟨later, last, rfl⟩
  · obtain ⟨rfl, he⟩ := List.append_inj' heq rfl
    exact List.singleton_inj.1 he ▸ passes
  · rw [List.concat_eq_append, ← List.cons_append, ← List.append_assoc] at heq
    exact h earlier d later (List.append_inj' heq rfl).1

/-- First come, first served: nobody started while somebody waited who came earlier, and of those
who reserved resources and did not leave, some have started and the others wait, all in the order
in which they reserved. -/
structure InOrder (w : Worker) (events : List Event) : Prop where
  keeps : w.KeepsOrder events
  order : ((w.reservations events).filter fun call => call ∉ lefts (w.run events).2) =
    launches (w.run events).2 ++ (w.run events).1.waiters.map Waiter.call

section Start

variable {meter : Meter} {config : Config} (h : start meter config = .ok w)

include h

theorem run_distinct (events : List Event) : (w.run events).1.slots.Distinct :=
  distinct_of_sound (run_sound (start_sound h) events).1

theorem run_ordered {events : List Event} (keeps : w.KeepsOrder events) :
    ((w.run events).1.slots.line (w.reservations events) (launches (w.run events).2)
      (lefts (w.run events).2)).Ordered := by
  induction events using List.reverseRecOn with
  | nil =>
    rw [start_eq h]
    exact ⟨rfl, .nil, fun _ mem => absurd mem List.not_mem_nil,
      fun _ mem => absurd mem List.not_mem_nil⟩
  | append_singleton events e ih =>
    rw [run_snoc, reservations_snoc, Change.next_fst, Change.next_snd, launches_append,
      lefts_append]
    exact step_ordered (run_switched (start_switched h) events) (run_distinct h events)
      (ih keeps.init) (keeps events e [] rfl)

theorem run_before (events : List Event) (isOpen : (w.run events).1.slotsClosed = false) :
    (w.run events).1.waiters.Pairwise Waiter.Before := by
  induction events using List.reverseRecOn with
  | nil =>
    rw [start_eq h]
    exact .nil
  | append_singleton events e ih =>
    rw [run_snoc] at isOpen ⊢
    have hs := run_switched (start_switched h) events
    cases closed : (w.run events).1.slotsClosed with
    | false =>
      have hd := run_distinct h events
      exact (step_shift (hs.serving_of_open closed) hd e).before hd (ih closed)
    | true =>
      have hstopped := step_stopped (hs.stopped_of_closed closed) e
      exact absurd isOpen (by simp [hstopped.closed])

theorem KeepsOrder.inOrder {events : List Event} (keeps : w.KeepsOrder events) :
    w.InOrder events :=
  ⟨keeps, (run_ordered h keeps).order⟩

theorem run_keepsOrder_of_one (one : config.maxConcurrentTasks.toNat = 1) (events : List Event) :
    w.KeepsOrder events := by
  rintro earlier e - -
  have hs := run_switched (start_switched h) earlier
  have hd := run_distinct h earlier
  have hkept := run_kept (start_sound h) (one ▸ start_kept h) earlier
  cases closed : (w.run earlier).1.slotsClosed with
  | false =>
    have hserves := hs.serving_of_open closed
    exact (step_shift hserves hd e).passes_of_one hkept closed hd (run_before h earlier closed)
  | true =>
    intro call hcall
    rw [launches_of_closed hs closed] at hcall
    cases hcall

theorem run_granted (events : List Event) (e : Event) {call : Token}
    (launched : .launched call ∈ ((w.run events).1.step e).2) :
    ∀ v ∈ ((w.run events).1.step e).1.waiters, v.call < call → v.granted = true := by
  have hs := run_switched (start_switched h) events
  have hmem : call ∈ launches ((w.run events).1.step e).2 := List.mem_filterMap.2 ⟨_, launched, rfl⟩
  cases closed : (w.run events).1.slotsClosed with
  | false =>
    have hkept := run_kept (start_sound h) (start_kept h) events
    have hserves := hs.serving_of_open closed
    exact (step_shift hserves (run_distinct h events) e).granted (run_before h events closed)
      (hkept.handed closed) call hmem
  | true =>
    rw [launches_of_closed hs closed e] at hmem
    cases hmem

end Start

end Worker

end BoundedWorker
