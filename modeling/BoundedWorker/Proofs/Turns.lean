import BoundedWorker.Host.Job
import BoundedWorker.Proofs.Order

/-!
Turns. Jobs that are ready stand in one queue, and whoever is given a slot joins it at the end. So
those who have a slot take their turns in the order in which they came. A request that comes in
finds a free slot only if all those who were given one take their turns before it, unless more slots
come back in the meantime than are waited for.
-/

namespace BoundedWorker

namespace Job

def resumed? : Job → Option Token
  | .resume call => some call
  | _ => none

def bringsRequest : Job → Bool
  | .submit _ _ | .message _ _ => true
  | _ => false

def mayFree : Job → Bool
  | .turn _ | .abandon _ => true
  | _ => false

theorem resumed?_of_mayFree {j : Job} (frees : j.mayFree = true) : j.resumed? = none := by
  cases j with
  | turn | abandon => rfl
  | _ => cases frees

end Job

def resumes (jobs : List Job) : List Token := jobs.filterMap Job.resumed?

@[simp] theorem resumes_append (jobs more : List Job) :
    resumes (jobs ++ more) = resumes jobs ++ resumes more := List.filterMap_append

theorem mem_resumes_of_cons {j : Job} {jobs : List Job} {call : Token}
    (mem : call ∈ resumes (j :: jobs)) (other : j.resumed? ≠ some call) : call ∈ resumes jobs := by
  rw [resumes, List.mem_filterMap] at mem
  obtain ⟨i, hi, hcall⟩ := mem
  rcases List.mem_cons.1 hi with rfl | hi
  · exact absurd hcall other
  · exact List.mem_filterMap.2 ⟨i, hi, hcall⟩

def Event.mayFree : Event → Bool
  | .turn _ _ _ _ | .abandon _ => true
  | _ => false

structure Job.Leads (j : Job) (e : Event) : Prop where
  resumed : e.resumed? = j.resumed?
  request : ∀ asks, e.request? = some asks → j.bringsRequest = true
  frees : e.mayFree = true → j.mayFree = true

namespace Slots

def seeking (s : Slots) : Nat := s.waiters.countP fun v => !v.granted

theorem seeking_eq_zero {s : Slots} (h : ∀ v ∈ s.waiters, v.granted = true) : s.seeking = 0 :=
  List.countP_eq_zero.2 fun v hv => by simp [h v hv]

theorem seeking_without {s : Slots} (hd : s.Distinct) {v : Waiter} (mem : v ∈ s.waiters) :
    s.seeking = (s.without v.call).seeking + if v.granted then 0 else 1 := by
  have hcount := (perm_cons_filter hd.waiters_nodup mem).countP_eq fun v => !v.granted
  rw [List.countP_cons] at hcount
  cases hgranted : v.granted <;> simpa [seeking, without, hgranted] using hcount

theorem back_closed (s : Slots) : s.back.1.closed = s.closed := by
  rcases s.back_cases with ⟨hback, -⟩ | ⟨before, v, after, -, -, hback⟩ <;> rw [hback]

/-- Nobody is passed over by a request that has these jobs before it: all who have a slot take their
turns first and at most one slot comes back, or no slot is free and no more come back than are
waited for. -/
def Clear (s : Slots) (frees : Nat) (coming : List Token) : Prop :=
  (frees ≤ 1 ∧ ∀ v ∈ s.waiters, v.granted = true → v.call ∈ coming) ∨
    (frees ≤ s.seeking ∧ s.free = 0)

/-- Those who have a slot take their turns in the order in which they came, before all who have
none, and no request that is ready passes anybody over. -/
structure InTurn (s : Slots) (ready : List Job) : Prop where
  coming : ∀ v ∈ s.waiters, v.granted = true → v.call ∈ resumes ready
  increasing : (resumes ready).Pairwise (· < ·)
  old : ∀ call ∈ resumes ready, call < s.calls
  behind : ∀ v ∈ s.waiters, v.granted = false → ∀ call ∈ resumes ready, call < v.call
  clear : ∀ before j after, ready = before ++ j :: after → j.bringsRequest = true →
    s.Clear (before.countP Job.mayFree) (resumes before)

theorem split_of_request {rest more before after : List Job} {j : Job}
    (h : rest ++ more = before ++ j :: after) (brings : j.bringsRequest = true)
    (none : ∀ i ∈ more, i.bringsRequest = false) : ∃ later, rest = before ++ j :: later := by
  rcases List.append_eq_append_iff.1 h with ⟨extra, -, hmore⟩ | ⟨extra, hrest, hmore⟩
  · have hmem : j ∈ more := hmore ▸ List.mem_append_right _ List.mem_cons_self
    exact absurd brings (by simp [none j hmem])
  · obtain _ | ⟨first, later⟩ := extra
    · have hmem : j ∈ more := by
        rw [List.nil_append] at hmore
        exact hmore ▸ List.mem_cons_self
      exact absurd brings (by simp [none j hmem])
    · obtain ⟨rfl, -⟩ := List.cons.inj hmore
      exact ⟨later, hrest⟩

namespace InTurn

variable {s : Slots} {j : Job} {rest more : List Job}

theorem append {ready : List Job} (h : s.InTurn ready) (silent : resumes more = [])
    (none : ∀ i ∈ more, i.bringsRequest = false) : s.InTurn (ready ++ more) := by
  have hresumes : resumes (ready ++ more) = resumes ready := by
    rw [resumes_append, silent, List.append_nil]
  refine ⟨hresumes ▸ h.coming, hresumes ▸ h.increasing, hresumes ▸ h.old, hresumes ▸ h.behind, ?_⟩
  intro before i after heq brings
  obtain ⟨later, hready⟩ := split_of_request heq brings none
  exact h.clear before i later hready brings

/-- A request comes in while no more slots may come back than are waited for, or only one. -/
theorem request {ready : List Job} (h : s.InTurn ready)
    (handed : 0 < s.free → ∀ v ∈ s.waiters, v.granted = true) (silent : j.resumed? = none)
    (few : ready.countP Job.mayFree ≤ max 1 s.seeking) : s.InTurn (ready ++ [j]) := by
  have hresumes : resumes (ready ++ [j]) = resumes ready := by
    simp [resumes, silent]
  have hclear : s.Clear (ready.countP Job.mayFree) (resumes ready) := by
    by_cases hone : ready.countP Job.mayFree ≤ 1
    · exact .inl ⟨hone, h.coming⟩
    · have hseeking : ready.countP Job.mayFree ≤ s.seeking := by omega
      rcases Nat.eq_zero_or_pos s.free with hfull | hfree
      · exact .inr ⟨hseeking, hfull⟩
      · rw [seeking_eq_zero (handed hfree)] at hseeking
        exact .inl ⟨hseeking.trans (Nat.zero_le 1), h.coming⟩
  refine ⟨hresumes ▸ h.coming, hresumes ▸ h.increasing, hresumes ▸ h.old, hresumes ▸ h.behind, ?_⟩
  intro before i after heq brings
  rcases List.eq_nil_or_concat after with rfl | ⟨later, last, rfl⟩
  · obtain ⟨rfl, -⟩ := List.append_inj' heq rfl
    exact hclear
  · rw [List.concat_eq_append, ← List.cons_append, ← List.append_assoc] at heq
    exact h.clear before i later (List.append_inj' heq rfl).1 brings

theorem pop (h : s.InTurn (j :: rest)) {s' : Slots} (calls : s.calls ≤ s'.calls)
    (waiters : ∀ v ∈ s'.waiters, v ∈ s.waiters ∨ v.granted = false ∧ s.calls ≤ v.call)
    (taken : ∀ v ∈ s'.waiters, v.granted = true → j.resumed? ≠ some v.call)
    (full : s.free = 0 → s'.free = 0 ∧ s.seeking ≤ s'.seeking + if j.mayFree then 1 else 0) :
    s'.InTurn rest := by
  have hsub : (resumes rest).Sublist (resumes (j :: rest)) :=
    (List.sublist_cons_self j rest).filterMap _
  have hgranted : ∀ v ∈ s'.waiters, v.granted = true → v ∈ s.waiters := by
    intro v hv granted
    exact (waiters v hv).elim id fun hnew => absurd granted (by simp [hnew.1])
  refine ⟨?_, h.increasing.sublist hsub, ?_, ?_, ?_⟩
  · exact fun v hv granted => mem_resumes_of_cons (h.coming v (hgranted v hv granted) granted)
      (taken v hv granted)
  · exact fun call mem => (h.old call (hsub.subset mem)).trans_le calls
  · intro v hv none call mem
    rcases waiters v hv with hold | ⟨-, hnew⟩
    · exact h.behind v hold none call (hsub.subset mem)
    · exact (h.old call (hsub.subset mem)).trans_le hnew
  · intro before i after heq brings
    rcases h.clear (j :: before) i after (congrArg (j :: ·) heq) brings with
      ⟨few, hcoming⟩ | ⟨hseeking, hfull⟩
    · have hcount : before.countP Job.mayFree ≤ (j :: before).countP Job.mayFree :=
        (List.sublist_cons_self j before).countP_le
      refine .inl ⟨hcount.trans few, fun v hv granted => ?_⟩
      exact mem_resumes_of_cons (hcoming v (hgranted v hv granted) granted) (taken v hv granted)
    · obtain ⟨hfull', hless⟩ := full hfull
      rw [List.countP_cons] at hseeking
      exact .inr ⟨by omega, hfull'⟩

theorem clear_of_frees (h : s.InTurn (j :: rest)) (frees : j.mayFree = true)
    {before after : List Job} {i : Job} (heq : rest = before ++ i :: after)
    (brings : i.bringsRequest = true) :
    s.Clear (before.countP Job.mayFree + 1) (resumes before) := by
  have hclear := h.clear (j :: before) i after (congrArg (j :: ·) heq) brings
  have hresumes : resumes (j :: before) = resumes before := by
    simp [resumes, Job.resumed?_of_mayFree frees]
  rwa [List.countP_cons_of_pos frees, hresumes] at hclear

theorem grant (h : s.InTurn rest) (hd : s.Distinct) {before after : List Waiter} {v : Waiter}
    (hw : s.waiters = before ++ v :: after) (hv : v.granted = false)
    (pairs : (before ++ { v with granted := true } :: after).Pairwise Waiter.Before)
    (full : s.free = 0)
    (clear : ∀ before i after, rest = before ++ i :: after → i.bringsRequest = true →
      s.Clear (before.countP Job.mayFree + 1) (resumes before))
    (called : resumes more = [v.call]) (none : ∀ i ∈ more, i.bringsRequest = false) :
    InTurn { s with waiters := before ++ { v with granted := true } :: after } (rest ++ more) := by
  have hmem : v ∈ s.waiters := hw ▸ List.mem_append_right _ List.mem_cons_self
  have hresumes : resumes (rest ++ more) = resumes rest ++ [v.call] := by
    rw [resumes_append, called]
  have hseeking : s.seeking =
      seeking { s with waiters := before ++ { v with granted := true } :: after } + 1 := by
    simp [seeking, hw, hv, Nat.add_assoc]
  -- but for `v`, those who wait are those who waited before
  have hwaiters : ∀ u ∈ before ++ { v with granted := true } :: after,
      u = { v with granted := true } ∨ u ∈ s.waiters := by
    intro u hu
    rcases List.mem_cons.1 (List.perm_middle.mem_iff.1 hu) with rfl | hu
    · exact .inl rfl
    · exact .inr (hw ▸ List.perm_middle.mem_iff.2 (List.mem_cons_of_mem _ hu))
  refine ⟨?_, ?_, ?_, ?_, ?_⟩
  · intro u hu granted
    rw [hresumes]
    rcases hwaiters u hu with rfl | hu
    · exact List.mem_append_right _ (List.mem_singleton_self _)
    · exact List.mem_append_left _ (h.coming u hu granted)
  · rw [hresumes]
    refine List.pairwise_append.2 ⟨h.increasing, List.pairwise_singleton _ _, ?_⟩
    intro call hcall other hother
    exact List.mem_singleton.1 hother ▸ h.behind v hmem hv call hcall
  · rw [hresumes]
    intro call hcall
    rcases List.mem_append.1 hcall with hcall | hcall
    · exact h.old call hcall
    · exact List.mem_singleton.1 hcall ▸ hd.waiters_lt v hmem
  · rw [hresumes]
    intro u hu ungranted call hcall
    rcases List.mem_append.1 hcall with hcall | hcall
    · rcases hwaiters u hu with rfl | hu
      · cases ungranted
      · exact h.behind u hu ungranted call hcall
    · obtain rfl := List.mem_singleton.1 hcall
      have hnew : (⟨v.call, v.request, true⟩ : Waiter) ∈
          before ++ { v with granted := true } :: after :=
        List.mem_append_right _ List.mem_cons_self
      have hlt := call_lt_of_granted pairs hnew hu rfl ungranted
      exact hlt
  · intro front i last heq brings
    obtain ⟨later, hrest⟩ := split_of_request heq brings none
    refine .inr ⟨?_, full⟩
    rcases clear front i later hrest brings with ⟨hone, -⟩ | ⟨hless, -⟩
    · exact (Nat.le_of_succ_le_succ hone).trans (Nat.zero_le _)
    · exact Nat.le_of_succ_le_succ (hless.trans hseeking.le)

theorem back (h : s.InTurn rest) (hd : s.Distinct) (isOpen : s.closed = false)
    (pairs : s.back.1.waiters.Pairwise Waiter.Before)
    (handed : 0 < s.free → ∀ v ∈ s.waiters, v.granted = true)
    (clear : ∀ before i after, rest = before ++ i :: after → i.bringsRequest = true →
      s.Clear (before.countP Job.mayFree + 1) (resumes before))
    (called : resumes more = s.back.2) (none : ∀ i ∈ more, i.bringsRequest = false) :
    s.back.1.InTurn (rest ++ more) := by
  rcases s.back_cases with ⟨hback, hall⟩ | ⟨before, v, after, hw, hv, hback⟩
  · rw [hback] at called ⊢
    refine append ⟨h.coming, h.increasing, h.old, h.behind, ?_⟩ called none
    intro before i after heq brings
    rcases clear before i after heq brings with ⟨hone, hcoming⟩ | ⟨hseeking, -⟩
    · exact .inl ⟨(Nat.le_succ _).trans hone, hcoming⟩
    · rw [seeking_eq_zero (hall isOpen)] at hseeking
      exact absurd hseeking (Nat.not_succ_le_zero _)
  · rw [hback] at called pairs ⊢
    have hmem : v ∈ s.waiters := hw ▸ List.mem_append_right _ List.mem_cons_self
    have hfull : s.free = 0 := Nat.eq_zero_of_not_pos fun free =>
      absurd (handed free v hmem) (by simp [hv])
    exact h.grant hd hw hv pairs hfull clear called none

theorem nobody (h : s.InTurn (j :: rest)) (brings : j.bringsRequest = true) (free : 0 < s.free)
    (handed : 0 < s.free → ∀ v ∈ s.waiters, v.granted = true) (v : Waiter) : v ∉ s.waiters := by
  intro mem
  rcases h.clear [] j rest rfl brings with ⟨-, hcoming⟩ | ⟨-, hfull⟩
  · exact absurd (hcoming v mem (handed free v mem)) List.not_mem_nil
  · exact free.ne' hfull

variable {e : Event} {reserved : List Token} {p : Passage}

theorem passes (h : s.InTurn (j :: rest)) (shift : s.Shift e reserved p) (leads : j.Leads e)
    (handed : 0 < s.free → ∀ v ∈ s.waiters, v.granted = true) :
    ∀ call ∈ p.launched, ∀ v ∈ p.slots.waiters, call < v.call := by
  cases shift with
  | take asked free =>
    exact fun _ _ v mem => absurd mem (h.nobody (leads.request _ asked) free handed v)
  | @launch v mem granted now =>
    intro call hcall u hu
    obtain rfl := List.mem_singleton.1 hcall
    have hfirst : resumes (j :: rest) = v.call :: resumes rest := by
      simp [resumes, ← leads.resumed, Event.resumed?]
    have hmem : u ∈ s.waiters := (List.mem_filter.1 hu).1
    cases hgranted : u.granted with
    | true =>
      have hcoming := h.coming u hmem hgranted
      have hincreasing := h.increasing
      rw [hfirst] at hcoming hincreasing
      exact (List.pairwise_cons.1 hincreasing).1 u.call
        ((List.mem_cons.1 hcoming).resolve_left (without_waiters hu))
    | false => exact h.behind u hmem hgranted v.call (hfirst ▸ List.mem_cons_self)
  | _ => nofun

theorem step (h : s.InTurn (j :: rest)) (shift : s.Shift e reserved p) (leads : j.Leads e)
    (hd : s.Distinct) (pairs : p.slots.waiters.Pairwise Waiter.Before)
    (handed : 0 < s.free → ∀ v ∈ s.waiters, v.granted = true) (isOpen : p.slots.closed = false)
    (called : resumes more = p.woken) (none : ∀ i ∈ more, i.bringsRequest = false) :
    p.slots.InTurn (rest ++ more) := by
  have hresumed := leads.resumed
  cases shift with
  | stay idle =>
    have hpop : s.InTurn rest := by
      refine h.pop le_rfl (fun _ => .inl) (fun v hv granted heq => ?_) fun full =>
        ⟨full, Nat.le_add_right _ _⟩
      simp [idle v hv (hresumed.trans heq)] at granted
    exact hpop.append called none
  | number new own =>
    have hpop : InTurn { s with calls := s.calls + 1 } rest := by
      refine h.pop (Nat.le_succ _) (fun _ => .inl) (fun v _ _ heq => ?_) fun full =>
        ⟨full, Nat.le_add_right _ _⟩
      exact absurd (hresumed.trans heq) (by simp [new])
    exact hpop.append called none
  | queue asked r full =>
    have hsilent := hresumed.symm.trans (Event.resumed?_of_request asked)
    have hpop : (s.queue r).InTurn rest := by
      refine h.pop (Nat.le_succ _) (fun v hv => ?_) (fun v _ _ heq => ?_) fun full => ⟨full, ?_⟩
      · rcases List.mem_append.1 hv with hv | hv
        · exact .inl hv
        · exact .inr (List.mem_singleton.1 hv ▸ ⟨rfl, le_rfl⟩)
      · exact absurd heq (by simp [hsilent])
      · simp [seeking, Slots.queue, Nat.add_assoc]
    exact hpop.append called none
  | take asked free =>
    have hnobody := h.nobody (leads.request _ asked) free handed
    have hpop : s.take.InTurn rest :=
      h.pop (Nat.le_succ _) (fun v hv => absurd hv (hnobody v))
        (fun v hv => absurd hv (hnobody v)) fun full => absurd full free.ne'
    exact hpop.append called none
  | @launch v mem granted now =>
    have hpop : ((s.without v.call).launch v.call).InTurn rest := by
      refine h.pop le_rfl (fun u hu => .inl (List.mem_filter.1 hu).1) (fun u hu _ heq => ?_)
        fun full => ⟨full, ?_⟩
      · exact without_waiters hu (Option.some_inj.1 (hresumed.trans heq)).symm
      · have hseeking := seeking_without hd mem
        rw [granted, if_pos rfl] at hseeking
        exact hseeking.le.trans (Nat.le_add_right _ _)
    exact hpop.append called none
  | @abandon v mem =>
    have frees := leads.frees rfl
    have hseeking := seeking_without hd mem
    have hsub : ∀ u ∈ (s.without v.call).waiters, u ∈ s.waiters := fun u hu =>
      (List.mem_filter.1 hu).1
    have hpop : (s.without v.call).InTurn rest := by
      refine h.pop le_rfl (fun u hu => .inl (hsub u hu)) (fun u _ _ heq => ?_) fun full =>
        ⟨full, ?_⟩
      · exact absurd heq (by simp [Job.resumed?_of_mayFree frees])
      · rw [hseeking, if_pos frees]
        split <;> omega
    cases granted : v.granted with
    | true =>
      have hleave : s.leave v = (s.without v.call).back := if_pos granted
      dsimp only at called pairs isOpen ⊢
      rw [hleave] at called pairs isOpen ⊢
      rw [back_closed] at isOpen
      refine hpop.back (hd.without v.call) isOpen pairs
        (fun free u hu => handed free u (hsub u hu)) ?_ called none
      intro before i after heq brings
      rcases h.clear_of_frees frees heq brings with ⟨hone, hcoming⟩ | ⟨hless, hfull⟩
      · exact .inl ⟨hone, fun u hu => hcoming u (hsub u hu)⟩
      · rw [hseeking, granted, if_pos rfl] at hless
        exact .inr ⟨hless, hfull⟩
    | false =>
      have hleave : s.leave v = (s.without v.call, []) := if_neg (by simp [granted])
      dsimp only at called ⊢
      rw [hleave] at called ⊢
      exact hpop.append called none
  | @ended t mem body expired elapsed =>
    have frees := leads.frees rfl
    have hpop : (s.ended t).InTurn rest := by
      refine h.pop le_rfl (fun _ => .inl) (fun u _ _ heq => ?_) fun full =>
        ⟨full, Nat.le_add_right _ _⟩
      exact absurd heq (by simp [Job.resumed?_of_mayFree frees])
    dsimp only at isOpen
    rw [back_closed] at isOpen
    exact hpop.back (hd.ended t) isOpen pairs handed
      (fun before i after => h.clear_of_frees frees) called none
  | close => cases isOpen

end InTurn

end Slots

end BoundedWorker
