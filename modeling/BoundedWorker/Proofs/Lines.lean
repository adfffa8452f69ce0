import BoundedWorker.Proofs.Closing

/-!
Lines of submissions. Those who reserve resources join a line; each of them starts, or leaves the
line, or waits in it. If nobody starts before somebody who joined earlier and still waits, those who
stay start in the order in which they joined.
-/

namespace BoundedWorker

def Notice.launched? : Notice → Option Token
  | .launched call => some call
  | _ => none

/-- The call that gave up, or was refused because the worker shuts down. -/
def Notice.left? : Notice → Option Token
  | .abandoned call => some call
  | .answered call (.error .shuttingDown) => some call
  | _ => none

def launches (notices : List Notice) : List Token := notices.filterMap Notice.launched?

def lefts (notices : List Notice) : List Token := notices.filterMap Notice.left?

@[simp] theorem launches_append (earlier later : List Notice) :
    launches (earlier ++ later) = launches earlier ++ launches later := List.filterMap_append

@[simp] theorem lefts_append (earlier later : List Notice) :
    lefts (earlier ++ later) = lefts earlier ++ lefts later := List.filterMap_append

theorem launches_tales (notices : List Notice) :
    launches (notices.filterMap Notice.tale?) = launches notices := by
  rw [launches, List.filterMap_filterMap]
  refine congrArg (fun f => notices.filterMap f) (funext fun n => ?_)
  cases n <;> rfl

theorem lefts_tales (notices : List Notice) :
    lefts (notices.filterMap Notice.tale?) = lefts notices := by
  rw [lefts, List.filterMap_filterMap]
  refine congrArg (fun f => notices.filterMap f) (funext fun n => ?_)
  cases n <;> rfl

theorem reject_lefts (call : Token) (refusal : Refusal) :
    ∀ other ∈ lefts [.answered call (.error refusal)], other = call := by
  intro other mem
  cases refusal with
  | shuttingDown => exact List.mem_singleton.1 mem
  | _ => cases mem

structure Line where
  calls : Nat
  waiting : List Token
  reserved : List Token
  launched : List Token
  left : List Token

namespace Line

/-- Of those who reserved and did not leave, some have started and the others wait, all in the order
in which they reserved. -/
structure Ordered (l : Line) : Prop where
  order : (l.reserved.filter fun call => call ∉ l.left) = l.launched ++ l.waiting
  increasing : l.reserved.Pairwise (· < ·)
  reserved_lt : ∀ call ∈ l.reserved, call < l.calls
  left_lt : ∀ call ∈ l.left, call < l.calls

def number (l : Line) (more : List Token) : Line :=
  { l with calls := l.calls + 1, left := l.left ++ more }

def queue (l : Line) : Line :=
  { l with
    calls := l.calls + 1
    waiting := l.waiting ++ [l.calls]
    reserved := l.reserved ++ [l.calls] }

def start (l : Line) : Line :=
  { l with
    calls := l.calls + 1
    reserved := l.reserved ++ [l.calls]
    launched := l.launched ++ [l.calls] }

def launch (l : Line) (call : Token) : Line :=
  { l with waiting := l.waiting.filter (· ≠ call), launched := l.launched ++ [call] }

def leave (l : Line) (call : Token) : Line :=
  { l with waiting := l.waiting.filter (· ≠ call), left := l.left ++ [call] }

theorem eq_cons_filter {calls : List Token} (increasing : calls.Pairwise (· < ·)) {call : Token}
    (mem : call ∈ calls) (least : ∀ other ∈ calls, call ≤ other) :
    calls = call :: calls.filter (· ≠ call) := by
  obtain _ | ⟨first, rest⟩ := calls
  · cases mem
  · obtain ⟨hfirst, -⟩ := List.pairwise_cons.1 increasing
    have heq : first = call := by
      rcases List.mem_cons.1 mem with he | hrest
      · exact he.symm
      · exact absurd (hfirst call hrest) (Nat.not_lt.2 (least first List.mem_cons_self))
    subst heq
    have hrest : rest.filter (· ≠ first) = rest :=
      List.filter_eq_self.2 fun other hmem => decide_eq_true (hfirst other hmem).ne'
    rw [List.filter_cons_of_neg (by simp), hrest]

namespace Ordered

variable {l : Line}

theorem kept_increasing (h : l.Ordered) : (l.launched ++ l.waiting).Pairwise (· < ·) :=
  h.order ▸ h.increasing.sublist List.filter_sublist

theorem waiting_lt (h : l.Ordered) {call : Token} (mem : call ∈ l.waiting) : call < l.calls := by
  have hmem : call ∈ l.reserved.filter fun call => call ∉ l.left :=
    h.order ▸ List.mem_append_right _ mem
  exact h.reserved_lt call (List.mem_filter.1 hmem).1

theorem number (h : l.Ordered) {more : List Token} (own : ∀ call ∈ more, call = l.calls) :
    (l.number more).Ordered := by
  refine ⟨?_, h.increasing, fun call mem => Nat.lt_succ_of_lt (h.reserved_lt call mem), ?_⟩
  · refine (List.filter_congr fun call mem => ?_).trans h.order
    have hmore : call ∉ more := fun hmem => (h.reserved_lt call mem).ne (own call hmem)
    simp [Line.number, hmore]
  · intro call mem
    rcases List.mem_append.1 mem with mem | mem
    · exact Nat.lt_succ_of_lt (h.left_lt call mem)
    · exact own call mem ▸ Nat.lt_succ_self _

theorem reserve_increasing (h : l.Ordered) : (l.reserved ++ [l.calls]).Pairwise (· < ·) :=
  List.pairwise_append.2 ⟨h.increasing, List.pairwise_singleton _ _, fun call mem _ hnew =>
    List.mem_singleton.1 hnew ▸ h.reserved_lt call mem⟩

theorem reserve_lt (h : l.Ordered) : ∀ call ∈ l.reserved ++ [l.calls], call < l.calls + 1 := by
  intro call mem
  rcases List.mem_append.1 mem with mem | mem
  · exact Nat.lt_succ_of_lt (h.reserved_lt call mem)
  · exact List.mem_singleton.1 mem ▸ Nat.lt_succ_self _

theorem reserve_order (h : l.Ordered) : ((l.reserved ++ [l.calls]).filter fun call =>
    call ∉ l.left) = l.launched ++ l.waiting ++ [l.calls] := by
  have hnew : l.calls ∉ l.left := fun mem => Nat.lt_irrefl _ (h.left_lt _ mem)
  rw [List.filter_append, h.order]
  simp [hnew]

theorem later (h : l.Ordered) {calls : Nat} (le : l.calls ≤ calls) :
    Ordered { l with calls } :=
  ⟨h.order, h.increasing, fun call mem => (h.reserved_lt call mem).trans_le le,
    fun call mem => (h.left_lt call mem).trans_le le⟩

theorem queue (h : l.Ordered) : l.queue.Ordered :=
  ⟨h.reserve_order.trans (List.append_assoc ..), h.reserve_increasing, h.reserve_lt,
    fun call mem => Nat.lt_succ_of_lt (h.left_lt call mem)⟩

theorem start (h : l.Ordered) (first : ∀ other ∈ l.waiting, l.calls < other) :
    l.start.Ordered := by
  have hnone : l.waiting = [] := List.eq_nil_iff_forall_not_mem.2 fun other mem =>
    Nat.lt_asymm (first other mem) (h.waiting_lt mem)
  refine ⟨?_, h.reserve_increasing, h.reserve_lt,
    fun call mem => Nat.lt_succ_of_lt (h.left_lt call mem)⟩
  have horder := h.reserve_order
  rw [hnone, List.append_nil] at horder
  simpa [Line.start, hnone] using horder

theorem launch (h : l.Ordered) {call : Token} (mem : call ∈ l.waiting)
    (first : ∀ other ∈ l.waiting, other ≠ call → call < other) : (l.launch call).Ordered := by
  have hleast : ∀ other ∈ l.waiting, call ≤ other := fun other hother =>
    (eq_or_ne other call).elim (fun he => he ▸ le_rfl) fun hne => (first other hother hne).le
  have hwaiting := eq_cons_filter (List.pairwise_append.1 h.kept_increasing).2.1 mem hleast
  refine ⟨?_, h.increasing, h.reserved_lt, h.left_lt⟩
  refine h.order.trans ?_
  conv_lhs => rw [hwaiting]
  exact List.append_cons ..

theorem leave (h : l.Ordered) {call : Token} (mem : call ∈ l.waiting) : (l.leave call).Ordered := by
  have hlaunched : l.launched.filter (· ≠ call) = l.launched :=
    List.filter_eq_self.2 fun other hother =>
      decide_eq_true ((List.pairwise_append.1 h.kept_increasing).2.2 other hother call mem).ne
  refine ⟨?_, h.increasing, h.reserved_lt, ?_⟩
  · have hsplit : (l.reserved.filter fun other => other ∉ l.left ++ [call]) =
        (l.reserved.filter fun other => other ∉ l.left).filter (· ≠ call) := by
      rw [List.filter_filter]
      refine List.filter_congr fun other _ => ?_
      simp [and_comm]
    change (l.reserved.filter fun other => other ∉ l.left ++ [call]) =
      l.launched ++ l.waiting.filter (· ≠ call)
    rw [hsplit, h.order, List.filter_append, hlaunched]
  · intro other hother
    rcases List.mem_append.1 hother with hother | hother
    · exact h.left_lt other hother
    · obtain rfl := List.mem_singleton.1 hother
      exact h.waiting_lt mem

end Ordered

end Line

namespace Roll

def line (r : Roll) (reserved launched left : List Token) : Line :=
  ⟨r.calls, r.waiting.map Ticket.call, reserved, launched, left⟩

theorem Ebb.launches_eq {r : Roll} {c : Roll × List Notice} (h : r.Ebb c) : launches c.2 = [] := by
  cases h <;> rfl

theorem Ebb.ordered {r : Roll} {c : Roll × List Notice} (h : r.Ebb c)
    {reserved launched left : List Token} (hl : (r.line reserved launched left).Ordered) :
    (c.1.line reserved launched (left ++ lefts c.2)).Ordered := by
  have hleave : ∀ t ∈ r.waiting,
      ((r.without t.call).line reserved launched (left ++ [t.call])).Ordered := by
    intro t mem
    have hleft := hl.leave (List.mem_map_of_mem mem)
    rw [line, Roll.without, Ticket.without]
    rw [Line.leave, line, List.filter_map] at hleft
    exact hleft
  cases h with
  | stay => rwa [show lefts [] = [] from rfl, List.append_nil]
  | number => exact hl.number fun _ mem => absurd mem List.not_mem_nil
  | refuse refusal => exact hl.number (reject_lefts r.calls refusal)
  | turnAway mem => exact hleave _ mem
  | abandon mem => exact hleave _ mem
  | finish mem elapsed => rwa [show lefts [Notice.reported _ _] = [] from rfl, List.append_nil]

end Roll

end BoundedWorker
