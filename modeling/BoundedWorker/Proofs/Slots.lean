import BoundedWorker.Proofs.Accounting

/-!
Slots. Every slot is free, or has been given to a submission that waits, or is held by an execution.
A slot that comes back goes to the submission that waits longest, so while slots are handed out, no
slot is free as long as somebody waits for one.
-/

namespace BoundedWorker

theorem Worker.grantFirst_cases (vs : List Waiter) :
    ((∀ v ∈ vs, v.granted = true) ∧ grantFirst vs = (vs, none)) ∨
      ∃ before v after, vs = before ++ v :: after ∧ v.granted = false ∧
        grantFirst vs = (before ++ { v with granted := true } :: after, some v.call) := by
  induction vs with
  | nil => simp [grantFirst]
  | cons u rest ih =>
    cases hu : u.granted with
    | false => exact .inr ⟨[], u, rest, rfl, hu, by simp [grantFirst, hu]⟩
    | true =>
      rcases ih with ⟨hall, hgrant⟩ | ⟨before, v, after, rfl, hv, hgrant⟩
      · exact .inl ⟨by simpa [hu] using hall, by simp [grantFirst, hu, hgrant]⟩
      · exact .inr ⟨u :: before, v, after, rfl, hv, by simp [grantFirst, hu, hgrant]⟩

structure Slots where
  calls : Nat
  free : Nat
  closed : Bool
  accepting : Bool
  waiters : List Waiter
  running : List Token

namespace Slots

def held (s : Slots) : Nat := s.waiters.countP (·.granted) + s.running.length

def back (s : Slots) : Slots × List Token :=
  if s.closed then ({ s with free := s.free + 1 }, [])
  else match Worker.grantFirst s.waiters with
    | (waiters, some call) => ({ s with waiters }, [call])
    | (_, none) => ({ s with free := s.free + 1 }, [])

theorem back_cases (s : Slots) :
    (s.back = ({ s with free := s.free + 1 }, []) ∧
        (s.closed = false → ∀ v ∈ s.waiters, v.granted = true)) ∨
      ∃ before v after, s.waiters = before ++ v :: after ∧ v.granted = false ∧
        s.back = ({ s with waiters := before ++ { v with granted := true } :: after },
          [v.call]) := by
  rw [back]
  cases hclosed : s.closed with
  | true => simp
  | false =>
    rcases Worker.grantFirst_cases s.waiters with
      ⟨hall, hgrant⟩ | ⟨before, v, after, hw, hv, hgrant⟩
    · exact .inl ⟨by simp [hgrant], fun _ => hall⟩
    · exact .inr ⟨before, v, after, hw, hv, by simp [hgrant]⟩

def queue (s : Slots) (r : TaskRequest) : Slots :=
  { s with calls := s.calls + 1, waiters := s.waiters ++ [⟨s.calls, r, false⟩] }

def without (s : Slots) (call : Token) : Slots :=
  { s with waiters := s.waiters.filter fun v => v.call ≠ call }

def leave (s : Slots) (v : Waiter) : Slots × List Token :=
  if v.granted then (s.without v.call).back else (s.without v.call, [])

theorem back_waiters {s : Slots} {u : Waiter} (hu : u ∈ s.back.1.waiters) :
    ∃ v ∈ s.waiters, v.call = u.call := by
  rcases s.back_cases with ⟨hback, -⟩ | ⟨before, v, after, hw, -, hback⟩
  · exact ⟨u, by simpa [hback] using hu, rfl⟩
  · rw [hback] at hu
    rcases List.mem_cons.1 (List.perm_middle.mem_iff.1 hu) with rfl | hu
    · exact ⟨v, hw ▸ List.mem_append_right _ List.mem_cons_self, rfl⟩
    · exact ⟨u, hw ▸ List.perm_middle.mem_iff.2 (List.mem_cons_of_mem _ hu), rfl⟩

theorem without_waiters {s : Slots} {call : Token} {u : Waiter}
    (hu : u ∈ (s.without call).waiters) : u.call ≠ call := by
  simpa using (List.mem_filter.1 hu).2

theorem leave_waiters {s : Slots} {v u : Waiter} (hu : u ∈ (s.leave v).1.waiters) :
    u.call ≠ v.call := by
  rw [leave] at hu
  split at hu
  · obtain ⟨x, hx, hcall⟩ := back_waiters hu
    exact hcall ▸ without_waiters hx
  · exact without_waiters hu

def launch (s : Slots) (call : Token) : Slots := { s with running := s.running ++ [call] }

def take (s : Slots) : Slots :=
  { s with calls := s.calls + 1, free := s.free - 1 }.launch s.calls

def ended (s : Slots) (t : Token) : Slots := { s with running := s.running.filter (· ≠ t) }

def close (s : Slots) : Slots := { s with accepting := false, closed := true }

structure Distinct (s : Slots) : Prop where
  waiters_lt : ∀ v ∈ s.waiters, v.call < s.calls
  waiters_nodup : (s.waiters.map Waiter.call).Nodup
  running_nodup : s.running.Nodup

/-- Of `n` slots none is lost or made, and none is free while somebody waits for one. Those who were
`woken` are those who were given one. -/
structure Kept (s : Slots) (n : Nat) (woken : List Token) : Prop where
  balance : s.free + s.held = n
  handed : s.closed = false → 0 < s.free → ∀ v ∈ s.waiters, v.granted = true
  isOpen : s.accepting = true → s.closed = false
  woken_lt : ∀ call ∈ woken, call < s.calls
  told : s.closed = false → ∀ v ∈ s.waiters, v.granted = true ↔ v.call ∈ woken

inductive Move (s : Slots) : Slots × List Token → Prop where
  | number : Move s ({ s with calls := s.calls + 1 }, [])
  | stay : Move s (s, [])
  | queue (r : TaskRequest) (full : s.free = 0) : Move s (s.queue r, [])
  | take (free : 0 < s.free) : Move s (s.take, [])
  | launch {v : Waiter} (mem : v ∈ s.waiters) (granted : v.granted = true) :
      Move s ((s.without v.call).launch v.call, [])
  | leave {v : Waiter} (mem : v ∈ s.waiters) : Move s (s.leave v)
  | ended {t : Token} (mem : t ∈ s.running) : Move s (s.ended t).back
  /-- Of those who are woken by a closure each is one who waits. -/
  | close {calls : Nat} (le : s.calls ≤ calls) {woken : List Token}
      (waiting : ∀ call ∈ woken, ∃ v ∈ s.waiters, v.call = call) :
      Move s ({ s.close with calls }, woken)

namespace Kept

variable {s : Slots} {n : Nat} {woken : List Token}

theorem number (h : s.Kept n woken) : Kept { s with calls := s.calls + 1 } n woken :=
  ⟨h.balance, h.handed, h.isOpen, fun call hc => Nat.lt_succ_of_lt (h.woken_lt call hc), h.told⟩

theorem queue (h : s.Kept n woken) (r : TaskRequest) (full : s.free = 0) :
    (s.queue r).Kept n woken := by
  refine ⟨?_, ?_, h.isOpen, h.number.woken_lt, ?_⟩
  · simpa [Slots.queue, held, List.countP_append] using h.balance
  · intro _ hfree
    exact absurd full (Nat.ne_of_gt hfree)
  · intro hopen v hv
    rcases List.mem_append.1 hv with hv | hv
    · exact h.told hopen v hv
    · obtain rfl := List.mem_singleton.1 hv
      have hnew : s.calls ∉ woken := fun hc => Nat.lt_irrefl _ (h.woken_lt _ hc)
      simp [hnew]

theorem launch (h : s.Kept n woken) (call : Token) : (s.launch call).Kept (n + 1) woken := by
  refine ⟨?_, h.handed, h.isOpen, h.woken_lt, h.told⟩
  have hheld : (s.launch call).held = s.held + 1 := by
    simp [Slots.launch, held, Nat.add_assoc]
  rw [hheld, ← Nat.add_assoc]
  exact congrArg (· + 1) h.balance

theorem take (h : s.Kept n woken) (free : 0 < s.free) : s.take.Kept n woken := by
  have hless : Kept { s with calls := s.calls + 1, free := s.free - 1 } (n - 1) woken := by
    refine ⟨?_, ?_, h.isOpen, h.number.woken_lt, h.told⟩
    · have := h.balance
      simp only [held] at this ⊢
      omega
    · exact fun hopen _ => h.handed hopen free
  have hn : n - 1 + 1 = n := Nat.sub_add_cancel (by have := h.balance; omega)
  exact hn ▸ hless.launch s.calls

theorem freed (h : s.Kept n woken) (hall : s.closed = false → ∀ v ∈ s.waiters, v.granted = true) :
    Kept { s with free := s.free + 1 } (n + 1) woken := by
  refine ⟨?_, fun hopen _ => hall hopen, h.isOpen, h.woken_lt, h.told⟩
  have hbalance := h.balance
  simp only [held] at hbalance ⊢
  omega

theorem granted (h : s.Kept n woken) (hs : s.Distinct) {before after : List Waiter} {v : Waiter}
    (hw : s.waiters = before ++ v :: after) (hv : v.granted = false) :
    Kept { s with waiters := before ++ { v with granted := true } :: after } (n + 1)
      (woken ++ [v.call]) := by
  have hmem : v ∈ s.waiters := hw ▸ List.mem_append_right _ List.mem_cons_self
  have hperm : s.waiters.Perm (v :: (before ++ after)) := hw ▸ List.perm_middle
  have hnodup := (hperm.map Waiter.call).nodup_iff.1 hs.waiters_nodup
  rw [List.map_cons, List.nodup_cons] at hnodup
  refine ⟨?_, ?_, h.isOpen, ?_, ?_⟩
  · have hbalance := h.balance
    simp only [held, hw, List.countP_append, List.countP_cons, hv] at hbalance ⊢
    simp only [Bool.false_eq_true, if_false, if_true] at hbalance ⊢
    omega
  · intro hopen hfree
    exact absurd (h.handed hopen hfree v hmem) (by simp [hv])
  · intro call hc
    rcases List.mem_append.1 hc with hc | hc
    · exact h.woken_lt call hc
    · exact List.mem_singleton.1 hc ▸ hs.waiters_lt v hmem
  · -- among those who wait, only `v` is called by the number that was woken now
    intro hopen u hu
    rcases List.mem_cons.1 (List.perm_middle.mem_iff.1 hu) with rfl | hu
    · simp
    · have hne : u.call ≠ v.call := fun he => hnodup.1 (he ▸ List.mem_map_of_mem hu)
      have htold := h.told hopen u (hperm.mem_iff.2 (List.mem_cons_of_mem _ hu))
      simpa [hne] using htold

theorem back (h : s.Kept n woken) (hs : s.Distinct) :
    s.back.1.Kept (n + 1) (woken ++ s.back.2) := by
  rcases s.back_cases with ⟨hback, hall⟩ | ⟨before, v, after, hw, hv, hback⟩
  · rw [hback, List.append_nil]
    exact h.freed hall
  · rw [hback]
    exact h.granted hs hw hv

theorem without (h : s.Kept n woken) (hs : s.Distinct) {v : Waiter} (hv : v ∈ s.waiters) :
    (s.without v.call).Kept (if v.granted then n - 1 else n) woken := by
  have hsub : ∀ u ∈ (s.without v.call).waiters, u ∈ s.waiters := fun u hu =>
    (List.mem_filter.1 hu).1
  refine ⟨?_, fun hopen hfree u hu => h.handed hopen hfree u (hsub u hu), h.isOpen, h.woken_lt,
    fun hopen u hu => h.told hopen u (hsub u hu)⟩
  have hcount := (perm_cons_filter hs.waiters_nodup hv).countP_eq (·.granted)
  have hbalance := h.balance
  rw [List.countP_cons] at hcount
  simp only [held, Slots.without] at hbalance ⊢
  split
  · rw [if_pos ‹_›] at hcount
    omega
  · rw [if_neg ‹_›] at hcount
    omega

theorem ended (h : s.Kept n woken) (hs : s.Distinct) {t : Token} (ht : t ∈ s.running) :
    (s.ended t).Kept (n - 1) woken := by
  have hperm : s.running.Perm (t :: s.running.filter (· ≠ t)) :=
    perm_cons_filter (by simpa using hs.running_nodup) ht
  have hlength := hperm.length_eq
  have hbalance := h.balance
  refine ⟨?_, h.handed, h.isOpen, h.woken_lt, h.told⟩
  simp only [held, Slots.ended, List.length_cons] at hlength hbalance ⊢
  omega

theorem sub_add_cancel (h : s.Kept n woken) (hheld : 0 < s.held) : n - 1 + 1 = n := by
  have hbalance := h.balance
  omega

theorem close (h : s.Kept n woken) {calls : Nat} (le : s.calls ≤ calls) {more : List Token}
    (waiting : ∀ call ∈ more, call < s.calls) :
    Kept { s.close with calls } n (woken ++ more) := by
  refine ⟨h.balance, nofun, nofun, ?_, nofun⟩
  intro call hc
  rcases List.mem_append.1 hc with hc | hc
  · exact Nat.lt_of_lt_of_le (h.woken_lt call hc) le
  · exact Nat.lt_of_lt_of_le (waiting call hc) le

end Kept

theorem held_pos_of_granted {s : Slots} {v : Waiter} (mem : v ∈ s.waiters)
    (granted : v.granted = true) : 0 < s.held :=
  Nat.add_pos_left (List.countP_pos_iff.2 ⟨v, mem, granted⟩) _

theorem held_pos_of_running {s : Slots} {t : Token} (mem : t ∈ s.running) : 0 < s.held :=
  Nat.add_pos_right _ (List.length_pos_of_mem mem)

theorem Distinct.without {s : Slots} (hs : s.Distinct) (call : Token) :
    (s.without call).Distinct :=
  ⟨fun v hv => hs.waiters_lt v (List.mem_filter.1 hv).1,
    hs.waiters_nodup.sublist (List.filter_sublist.map _), hs.running_nodup⟩

theorem Distinct.ended {s : Slots} (hs : s.Distinct) (t : Token) : (s.ended t).Distinct :=
  ⟨hs.waiters_lt, hs.waiters_nodup, hs.running_nodup.filter _⟩

theorem Move.kept {s : Slots} {c : Slots × List Token} {n : Nat} {woken : List Token}
    (hmove : s.Move c) (h : s.Kept n woken) (hs : s.Distinct) : c.1.Kept n (woken ++ c.2) := by
  cases hmove with
  | number => simpa using h.number
  | stay => simpa using h
  | queue r full => simpa using h.queue r full
  | take free => simpa using h.take free
  | @launch v mem granted =>
    have hless := h.without hs mem
    rw [if_pos granted] at hless
    rw [List.append_nil, ← h.sub_add_cancel (held_pos_of_granted mem granted)]
    exact hless.launch v.call
  | @leave v mem =>
    have hless := h.without hs mem
    rw [Slots.leave]
    split
    · rw [if_pos ‹_›] at hless
      rw [← h.sub_add_cancel (held_pos_of_granted mem ‹_›)]
      exact hless.back (hs.without v.call)
    · rw [if_neg ‹_›] at hless
      simpa using hless
  | @ended t mem =>
    rw [← h.sub_add_cancel (held_pos_of_running mem)]
    exact (h.ended hs mem).back (hs.ended t)
  | close le waiting =>
    refine h.close le fun call hc => ?_
    obtain ⟨v, hv, rfl⟩ := waiting call hc
    exact hs.waiters_lt v hv

end Slots

def Notice.woken? : Notice → Option Token
  | .woken call => some call
  | _ => none

def woken (notices : List Notice) : List Token := notices.filterMap Notice.woken?

theorem mem_woken {notices : List Notice} {call : Token} :
    call ∈ woken notices ↔ .woken call ∈ notices := by
  rw [woken, List.mem_filterMap]
  constructor
  · rintro ⟨n, hn, he⟩
    cases n <;> simp_all [Notice.woken?]
  · exact fun h => ⟨_, h, rfl⟩

namespace Worker

def slots (w : Worker) : Slots :=
  ⟨w.calls, w.freeSlots, w.slotsClosed, w.accepting, w.waiters, w.running.map Execution.token⟩

end Worker

def slotView : View Slots Token where
  see := Worker.slots
  hear := Notice.woken?
  see_core _ := rfl
  hear_aside n h := by
    cases n with
    | returned | nudged => rfl
    | _ => cases h

namespace Worker

variable (w : Worker)

theorem returnSlot_slots : slotView.of w.returnSlot = w.slots.back := by
  have hclosed : w.slots.closed = w.slotsClosed := rfl
  have hwaiters : w.slots.waiters = w.waiters := rfl
  rw [returnSlot, Slots.back, hclosed, hwaiters]
  cases w.slotsClosed with
  | true => rfl
  | false => rcases grantFirst w.waiters with ⟨waiters, _ | call⟩ <;> rfl

theorem releaseResources_slots (r : TaskRequest) :
    slotView.of (w.releaseResources r) = (w.slots, []) := by
  refine congrArg (Prod.mk w.slots) ?_
  simp [releaseResources, slotView, List.filterMap_map, Function.comp_def, Notice.woken?]

theorem endTicket_slots (r : TaskRequest) (slot : Bool) :
    slotView.of (w.endTicket r slot) = if slot then w.slots.back else (w.slots, []) := by
  have hrelease := w.releaseResources_slots r
  have hkept : (w.releaseResources r).1.slots = w.slots := congrArg Prod.fst hrelease
  rw [endTicket, View.next_eq _ fun w => slotView.aside w.noteIdle_aside]
  cases slot with
  | true =>
    simp only [View.next, if_true, returnSlot_slots, hrelease, hkept, List.nil_append]
  | false => exact (slotView.next_eq fun _ => rfl).trans hrelease

theorem next_reject_slots (c : Change) (call : Token) (refusal : Refusal) :
    slotView.of (c.next (reject call refusal)) = slotView.of c :=
  slotView.next_eq fun _ => rfl

theorem unqueued_slots (call : Token) : (w.unqueued call).slots = w.slots.without call := rfl

theorem leaveQueue_slots (v : Waiter) : slotView.of (w.leaveQueue v) = w.slots.leave v := by
  rw [leaveQueue, Slots.leave]
  split
  · exact returnSlot_slots _
  · rfl

theorem leave_slots (v : Waiter) (r : TaskRequest) :
    slotView.of ((w.leaveQueue v).next fun w => w.endTicket r false) = w.slots.leave v := by
  rw [View.next_eq _ fun w => w.endTicket_slots r false, leaveQueue_slots]

theorem launched_slots (call : Token) (r : TaskRequest) (now : Nat) :
    (w.launched call r now).slots = w.slots.launch call := by
  simp [slots, launched, withTotals, Slots.launch]

theorem carriedOn_slots (t : Token) : (w.carriedOn t).slots = w.slots := by
  have htoken : ∀ u : Execution,
      (if u.token = t then { u with started := true } else u).token = u.token := by
    intro u
    split <;> rfl
  simp [slots, carriedOn, List.map_map, Function.comp_def, htoken]

theorem cancelledIf_slots (c : Bool) (t : Token) : (w.cancelledIf c t).slots = w.slots := by
  cases c <;> rfl

theorem beginning_woken (x : Execution) (v : Verdict) :
    (beginning x v).filterMap slotView.hear = [] := by
  rw [beginning]
  split <;> rfl

theorem ended_slots (t : Token) (o : Outcome) : (w.ended t o).slots = w.slots.ended t := by
  simp only [slots, ended, withTotals, Slots.ended, List.filter_map]
  rfl

theorem finish_slots (x : Execution) (o : Outcome) (elapsed : Duration) :
    slotView.of (w.finish x o elapsed) = (w.slots.ended x.token).back := by
  rw [finish, View.next_eq _ fun _ => rfl, endTicket_slots, if_pos rfl, ended_slots]

theorem stop_move : ∃ more, slotView.of w.stop = (w.slots.close, more) ∧
    ∀ call ∈ more, ∃ v ∈ w.waiters, v.call = call := by
  refine ⟨_, rfl, fun call hc => ?_⟩
  rcases List.mem_append.1 (mem_woken.1 hc) with h | h <;> split at h
  · cases h
  · obtain ⟨v, hv, he⟩ := List.mem_map.1 h
    exact ⟨v, (List.mem_filter.1 hv).1, Notice.woken.inj he⟩
  · cases h
  · obtain ⟨x, -, he⟩ := List.mem_map.1 h
    cases he

variable {w : Worker}

theorem distinct_of_sound (hb : w.books.Sound) : w.slots.Distinct := by
  have hwaiting : w.books.waiting.map Ticket.call = w.waiters.map Waiter.call := List.map_map
  have hrunning : w.books.running.map Ticket.call = w.running.map Execution.token := List.map_map
  have hcalls := hb.calls_nodup
  rw [Books.tickets, List.map_append, hwaiting, hrunning] at hcalls
  obtain ⟨hwaiters, hexecutions, -⟩ := List.nodup_append'.1 hcalls
  exact ⟨fun v hv => hb.calls_lt v.ticket (Books.Sound.waiting_mem (List.mem_map_of_mem hv)),
    hwaiters, hexecutions⟩

theorem step_move (w : Worker) (e : Event) : w.slots.Move (slotView.of (w.step e)) := by
  have heffect := w.step_effect e
  generalize w.step e = change at heffect ⊢
  cases heffect with
  | idle => exact .stay
  | respond => exact .number
  | refuse => exact .number
  | @queue _ r now ledger asked decided isOpen full => exact .queue r full
  | @launch _ r now ledger asked decided isOpen free =>
    change w.slots.Move (slots _, [])
    rw [launched_slots]
    exact .take free
  | @turnAway _ r now ledger asked decided closed =>
    rw [next_reject_slots, endTicket_slots]
    exact .number
  | @resume call now v found isOpen granted accepts =>
    obtain rfl : v.call = call := (waiter?_mem found).2
    change w.slots.Move (slots _, [])
    rw [launched_slots, unqueued_slots]
    exact .launch (List.mem_of_find?_eq_some found) granted
  | @overtake call now v found isOpen granted refuses =>
    obtain rfl : v.call = call := (waiter?_mem found).2
    rw [next_reject_slots, endTicket_slots, if_pos rfl, unqueued_slots]
    have hleave : w.slots.leave v = (w.slots.without v.call).back := if_pos granted
    exact hleave ▸ .leave (List.mem_of_find?_eq_some found)
  | @closeOut call now v found closed =>
    rw [next_reject_slots, leave_slots]
    exact .leave (List.mem_of_find?_eq_some found)
  | @abandon call v found =>
    rw [View.next_eq _ fun _ => rfl, leave_slots]
    exact .leave (List.mem_of_find?_eq_some found)
  | @carryOn t body expired x elapsed found undecided =>
    have hroused : (if w.cancels (w.moment t body expired) then [Notice.roused t] else []).filterMap
        slotView.hear = [] := by
      split <;> rfl
    change w.slots.Move (slots _, List.filterMap _ _)
    rw [carriedOn_slots, cancelledIf_slots, List.filterMap_append, beginning_woken, hroused]
    exact .stay
  | @finish t body expired x o elapsed found decided =>
    obtain rfl : x.token = t := (execution?_mem found).2
    rw [View.next, finish_slots, cancelledIf_slots]
    change w.slots.Move (_, List.filterMap _ (beginning x _) ++ _)
    rw [beginning_woken]
    exact .ended (List.mem_map_of_mem (List.mem_of_find?_eq_some found))
  | reportEnded t delivered =>
    rw [slotView.aside (w.reportEnded_aside t delivered)]
    exact .stay
  | shutdown =>
    obtain ⟨more, hstop, hwaiting⟩ := stop_move { w with
      calls := w.calls + 1
      cancelled := (if w.accepting then w.registry.tokens else []) ++ w.cancelled }
    rw [slotView.shutdown_eq, hstop]
    exact .close (Nat.le_succ w.calls) hwaiting
  | resumeDrain call =>
    rw [slotView.aside (w.resumeDrain_aside call)]
    exact .stay
  | drop =>
    rw [Worker.drop]
    split
    · exact .stay
    · split
      · exact .stay
      · obtain ⟨more, hstop, hwaiting⟩ := stop_move { w with dropped := true }
        rw [hstop]
        exact .close (Nat.le_refl w.calls) hwaiting

theorem start_kept {meter : Meter} {config : Config} (h : start meter config = .ok w) :
    w.slots.Kept config.maxConcurrentTasks.toNat [] := by
  have hnone : ∀ v, v ∉ ([] : List Waiter) := fun v => List.not_mem_nil
  rw [start_eq h]
  exact ⟨rfl, fun _ _ v hv => absurd hv (hnone v), fun _ => rfl,
    fun call hc => absurd hc List.not_mem_nil, fun _ v hv => absurd hv (hnone v)⟩

theorem run_kept {n : Nat} (hb : w.books.Sound) (h : w.slots.Kept n []) (events : List Event) :
    (w.run events).1.slots.Kept n (woken (w.run events).2) := by
  refine run_induction (P := fun _ c => c.1.slots.Kept n (woken c.2)) h (fun earlier e ih => ?_)
    events
  rw [Change.next_fst, Change.next_snd, woken, List.filterMap_append]
  exact (step_move _ e).kept ih (distinct_of_sound (run_sound hb earlier).1)

theorem waiter?_eq_none_iff {call : Token} :
    w.waiter? call = none ↔ ∀ v ∈ w.slots.waiters, v.call ≠ call := by
  simp [waiter?, slots]

theorem full_of_waiting {n : Nat} {called : List Token} (h : w.slots.Kept n called)
    (accepts : w.accepting = true) (resumed : ∀ call ∈ called, w.waiter? call = none)
    (waiting : 0 < w.waiters.length) : w.running.length = n := by
  have hopen := h.isOpen accepts
  have hnone : ∀ v ∈ w.waiters, v.granted ≠ true := fun v hv hgranted =>
    waiter?_eq_none_iff.1 (resumed v.call ((h.told hopen v hv).1 hgranted)) v hv rfl
  obtain ⟨v, hv⟩ := List.exists_mem_of_length_pos waiting
  have hfree : w.freeSlots = 0 := Nat.eq_zero_of_not_pos fun hpos =>
    hnone v hv (h.handed hopen hpos v hv)
  have hgranted : w.waiters.countP (·.granted) = 0 := List.countP_eq_zero.2 hnone
  have hbalance := h.balance
  simpa [slots, Slots.held, hfree, hgranted] using hbalance

theorem resume_woken {n : Nat} {called : List Token} (h : w.slots.Kept n called) {call : Token}
    (hcalled : call ∈ called) (now : Nat) : (w.resume call now).1.waiter? call = none := by
  rw [Worker.resume]
  cases found : w.waiter? call with
  | none => exact found
  | some v =>
    obtain rfl : v.call = call := (waiter?_mem found).2
    have hv : v ∈ w.slots.waiters := List.mem_of_find?_eq_some found
    have hleave : ∀ c : Change, slotView.of c = w.slots.leave v → c.1.waiter? v.call = none := by
      intro c hc
      have hslots : c.1.slots = (w.slots.leave v).1 := congrArg Prod.fst hc
      exact waiter?_eq_none_iff.2 fun u hu => Slots.leave_waiters (hslots ▸ hu)
    dsimp only
    cases closed : w.slotsClosed with
    | true =>
      refine hleave _ ?_
      rw [if_pos rfl, next_reject_slots, leave_slots]
    | false =>
      -- while slots are handed out, whoever was woken has one
      have hgranted : v.granted = true := (h.told closed v hv).2 hcalled
      rw [if_neg Bool.false_ne_true, if_pos hgranted, Worker.launch]
      split
      · refine hleave _ ?_
        rw [next_reject_slots, endTicket_slots, if_pos rfl, unqueued_slots, Slots.leave,
          if_pos hgranted]
      · rw [waiter?_eq_none_iff, launched_slots, unqueued_slots]
        exact fun u hu => Slots.without_waiters hu

/-- The number of tasks that run is at most the number of slots, and no slot is lost or made. While
the worker accepts, and nobody waits who was woken, somebody waits only if all slots are in use; and
nobody who was woken goes on waiting after a turn. -/
theorem run_slots {meter : Meter} {config : Config} (h : start meter config = .ok w)
    (events : List Event) :
    (w.run events).1.registry.activeCount ≤ config.maxConcurrentTasks.toNat ∧
      (w.run events).1.freeSlots + (w.run events).1.slots.held =
        config.maxConcurrentTasks.toNat ∧
      ((w.run events).1.accepting = true →
        (∀ call, .woken call ∈ (w.run events).2 → (w.run events).1.waiter? call = none) →
          0 < (w.run events).1.registry.waitingCount →
            (w.run events).1.registry.activeCount = config.maxConcurrentTasks.toNat) ∧
      ∀ call now, .woken call ∈ (w.run events).2 →
        ((w.run events).1.step (.resume call now)).1.waiter? call = none := by
  have hb := (run_sound (start_sound h) events).1
  have hkept := run_kept (start_sound h) (start_kept h) events
  have hactive : (w.run events).1.registry.activeCount = (w.run events).1.running.length :=
    hb.activeCount_eq.trans (List.length_map _)
  have hwaiting : (w.run events).1.registry.waitingCount = (w.run events).1.waiters.length :=
    hb.waitingCount_eq.trans (List.length_map _)
  have hbalance : (w.run events).1.freeSlots + (w.run events).1.slots.held =
      config.maxConcurrentTasks.toNat := hkept.balance
  refine ⟨?_, hbalance, ?_, ?_⟩
  · have hrunning : (w.run events).1.running.length ≤ (w.run events).1.slots.held := by
      simp [Slots.held, slots]
    omega
  · intro accepts resumed waiting
    rw [hwaiting] at waiting
    rw [hactive]
    exact full_of_waiting hkept accepts (fun call hc => resumed call (mem_woken.1 hc)) waiting
  · exact fun call now hc => resume_woken hkept (mem_woken.2 hc) now

theorem run_slots_one : ∃ config, config = { Config.standard "w" with maxConcurrentTasks := 1 } ∧
    ∃ w, start .millionths config = .ok w ∧ ∃ c d,
      c = w.run [.submit (.new "a" .null) 0, .submit (.new "b" .null) 0] ∧
      d = w.run [.submit (.new "a" .null) 0, .submit (.new "b" .null) 0,
        .turn 0 ⟨false, some (.completed .empty)⟩ false .zero] ∧
      c.1.registry.activeCount = 1 ∧ .woken 1 ∈ d.2 ∧
      (d.1.step (.resume 1 0)).1.waiter? 1 = none := by
  refine ⟨_, rfl, _, rfl, _, _, rfl, rfl, ?_⟩
  have hstart := fun events => run_slots (show start .millionths
    { Config.standard "w" with maxConcurrentTasks := 1 } = .ok _ from rfl) events
  obtain ⟨-, -, hfull, -⟩ := hstart [.submit (.new "a" .null) 0, .submit (.new "b" .null) 0]
  obtain ⟨-, -, -, hresume⟩ := hstart [.submit (.new "a" .null) 0, .submit (.new "b" .null) 0,
    .turn 0 ⟨false, some (.completed .empty)⟩ false .zero]
  refine ⟨hfull rfl ?_ (by decide), mem_woken.1 (List.mem_singleton_self 1),
    hresume 1 0 (mem_woken.1 (List.mem_singleton_self 1))⟩
  intro call hc
  exact absurd (show call ∈ [] from mem_woken.2 hc) List.not_mem_nil

end Worker

end BoundedWorker
