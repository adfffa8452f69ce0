import BoundedWorker.Proofs.Ceiling
import BoundedWorker.Proofs.Idle

/-!
Kinds that are listed with no units. A commitment lists every kind that it names, also where it adds
nothing; a release strikes every kind that it names and that has no units left, whoever listed it.
So a release after its commitment gives back every unit, but it also strikes what was listed with no
units before; and a ledger that lists nothing but such kinds has nothing committed and is not idle.
-/

namespace BoundedWorker

theorem Meter.demand_eq_zero (m : Meter) {required : Profile} {kind : String}
    (h : required.contains kind = false) : m.demand required kind = 0 :=
  Nat.eq_zero_of_not_pos fun hpos => Bool.false_ne_true (h.symm.trans (demand_pos hpos))

namespace Ledger

variable {l l' : Ledger} {required : Profile} {kind : String}

theorem lists_of_committed (h : 0 < l.committed kind) : l.Lists kind := by
  rw [lists_iff]
  cases hget : l.load.get? kind with
  | some units => exact ⟨units, rfl⟩
  | none => simp [committed, hget] at h

theorem get?_load (l : Ledger) (kind : String) :
    l.load.get? kind = if l.load.contains kind then some (l.committed kind) else none := by
  rw [Table.contains, committed]
  cases l.load.get? kind <;> rfl

theorem load_ext (lists : ∀ kind, l.Lists kind ↔ l'.Lists kind)
    (committed : ∀ kind, l.committed kind = l'.committed kind) : l.load = l'.load := by
  refine Table.ext_get? fun kind => ?_
  have hlists : l.load.contains kind = l'.load.contains kind := Bool.eq_iff_iff.2 (lists kind)
  rw [get?_load, get?_load, hlists, committed kind]

theorem eq_of_lists (meter : l.meter = l'.meter) (limits : l.limits = l'.limits)
    (lists : ∀ kind, l.Lists kind ↔ l'.Lists kind)
    (committed : ∀ kind, l.committed kind = l'.committed kind) : l = l' := by
  have hload := load_ext lists committed
  cases l
  cases l'
  simp_all

theorem lists_add {other : String} (amount : Float) (h : other = kind ∨ l.Lists kind) :
    (l.add other amount).Lists kind := by
  rw [Lists, Table.contains, add, Table.get?_insert]
  split
  · rfl
  · exact h.resolve_left ‹_›

theorem lists_addAll {entries : List (String × Float)}
    (h : (∃ e ∈ entries, e.1 = kind) ∨ l.Lists kind) : (l.addAll entries).Lists kind := by
  induction entries generalizing l with
  | nil => exact h.resolve_left (by simp)
  | cons e rest ih =>
    refine ih ?_
    rcases h with ⟨d, hd, hname⟩ | h
    · rcases List.mem_cons.1 hd with rfl | hd
      · exact .inr (lists_add _ (.inl hname))
      · exact .inl ⟨d, hd, hname⟩
    · exact .inr (lists_add _ (.inr h))

theorem commit_lists_iff (h : l.commit required = .ok l') :
    l'.Lists kind ↔ required.contains kind = true ∨ l.Lists kind := by
  refine ⟨commit_lists h, fun hnamed => ?_⟩
  rw [(commit_eq_ok_iff.1 h).2]
  refine lists_addAll (hnamed.imp_left fun hcontains => ?_)
  obtain ⟨e, he, hname⟩ := List.mem_map.1 (Table.mem_names_iff.2 hcontains)
  exact ⟨e, he, hname⟩

theorem subtractAll_get?_ne {entries : List (String × Float)} (h : ∀ e ∈ entries, e.1 ≠ kind) :
    (l.subtractAll entries).1.load.get? kind = l.load.get? kind := by
  induction entries generalizing l with
  | nil => rfl
  | cons e rest ih =>
    exact (ih fun d hd => h d (List.mem_cons_of_mem _ hd)).trans
      (subtract_get?_ne (h e List.mem_cons_self) e.2)

theorem release_lists_iff (l : Ledger) (required : Profile) (kind : String) :
    (l.release required).1.Lists kind ↔ l.Lists kind ∧
      (required.contains kind = true → 0 < (l.release required).1.committed kind) := by
  refine ⟨release_lists, fun ⟨hlists, hpos⟩ => ?_⟩
  cases hcontains : required.contains kind with
  | true => exact lists_of_committed (hpos hcontains)
  | false =>
    have hname : ∀ e ∈ required.entries, e.1 ≠ kind := by
      rintro e he rfl
      have hmem : e.1 ∈ required.names := List.mem_map_of_mem he
      simp [Table.mem_names_iff, hcontains] at hmem
    rwa [Lists, Table.contains, release, subtractAll_get?_ne hname]

theorem get?_foldl_insert {α β : Type} (f : α → β) (p : Table β) {entries : List (String × α)}
    (hinc : NamesIncrease entries) (name : String) :
    (entries.foldl (fun p e => p.insert e.1 (f e.2)) p).get? name =
      ((Table.lookup name entries).map f).or (p.get? name) := by
  induction entries generalizing p with
  | nil => rfl
  | cons e rest ih =>
    obtain ⟨other, a⟩ := e
    rw [List.foldl_cons, ih _ (List.pairwise_cons.1 hinc).2, Table.get?_insert, Table.lookup]
    by_cases hname : other = name
    · -- the names increase, so no later entry has this name again
      subst hname
      simp [Table.lookup_tail hinc]
    · simp [hname]

theorem get?_profile (l : Ledger) (kind : String) : l.profile.get? kind =
    ((l.load.get? kind).map l.meter.amount).or ((l.limits.get? kind).map fun _ => 0) := by
  rw [profile, get?_foldl_insert _ _ l.load.increasing, Table.get?_map]
  rfl

/-- A kind that is listed although nothing of it is committed. -/
def Bare (l : Ledger) (kind : String) : Prop := l.Lists kind ∧ l.committed kind = 0

theorem release_commit_alarms (h : l.commit required = .ok l') :
    (l'.release required).2 = [] := by
  refine release_alarms l' required fun kind => ?_
  rw [commit_meter h, committed_commit h]
  exact Nat.le_add_left _ _

theorem release_commit_committed (h : l.commit required = .ok l') (kind : String) :
    (l'.release required).1.committed kind = l.committed kind := by
  rw [committed_release, commit_meter h, committed_commit h]
  exact Nat.add_sub_cancel _ _

theorem release_commit_lists (h : l.commit required = .ok l') (kind : String) :
    (l'.release required).1.Lists kind ↔
      l.Lists kind ∧ ¬ (required.contains kind = true ∧ l.Bare kind) := by
  rw [release_lists_iff, commit_lists_iff h, release_commit_committed h, Bare]
  constructor
  · rintro ⟨hlists, hpos⟩
    -- what the commitment has listed is there only because it has units, and had them before
    refine ⟨hlists.elim (fun hnamed => lists_of_committed (hpos hnamed)) id, ?_⟩
    rintro ⟨hnamed, -, hzero⟩
    exact Nat.ne_of_gt (hpos hnamed) hzero
  · rintro ⟨hlists, hbare⟩
    exact ⟨.inr hlists, fun hnamed => Nat.pos_of_ne_zero fun hzero => hbare ⟨hnamed, hlists, hzero⟩⟩

theorem release_commit_eq_iff (h : l.commit required = .ok l') :
    (l'.release required).1 = l ↔ ∀ kind, required.contains kind = true → ¬ l.Bare kind := by
  constructor
  · intro heq kind hnamed hbare
    have hlists := (release_commit_lists h kind).1 (heq.symm ▸ hbare.1)
    exact hlists.2 ⟨hnamed, hbare⟩
  · intro hnone
    refine eq_of_lists ?_ ?_ (fun kind => ?_) (release_commit_committed h)
    · rw [release_meter, commit_meter h]
    · rw [release_limits, commit_limits h]
    · rw [release_commit_lists h]
      exact ⟨And.left, fun hlists => ⟨hlists, fun hbare => hnone kind hbare.1 hbare.2⟩⟩

theorem release_commit_isIdle_iff (h : l.commit required = .ok l') :
    (l'.release required).1.isIdle = l.isIdle ↔
      l.isIdle = true ∨ ∃ kind, l.Lists kind ∧ ¬ (required.contains kind = true ∧ l.Bare kind) := by
  constructor
  · intro heq
    by_cases hidle : l.isIdle = true
    · exact .inl hidle
    · rw [← heq, isIdle_iff, not_forall] at hidle
      obtain ⟨kind, hlists⟩ := hidle
      exact .inr ⟨kind, (release_commit_lists h kind).1 (not_not.1 hlists)⟩
  · rintro (hidle | ⟨kind, hlists, hkept⟩)
    · rw [hidle, isIdle_iff]
      intro kind hlists
      exact (isIdle_iff l).1 hidle kind ((release_commit_lists h kind).1 hlists).1
    · have hbefore : l.isIdle = false := Bool.eq_false_iff.2 fun hidle =>
        (isIdle_iff l).1 hidle kind hlists
      have hafter : (l'.release required).1.isIdle = false := Bool.eq_false_iff.2 fun hidle =>
        (isIdle_iff _).1 hidle kind ((release_commit_lists h kind).2 ⟨hlists, hkept⟩)
      rw [hbefore, hafter]

theorem release_commit_get? (h : l.commit required = .ok l')
    (hkept : ¬ (required.contains kind = true ∧ l.Bare kind)) :
    (l'.release required).1.load.get? kind = l.load.get? kind := by
  have hlists : (l'.release required).1.load.contains kind = l.load.contains kind :=
    Bool.eq_iff_iff.2 ((release_commit_lists h kind).trans ⟨And.left, fun hl => ⟨hl, hkept⟩⟩)
  rw [get?_load, get?_load l, hlists, release_commit_committed h]

theorem release_commit_get?_bare (h : l.commit required = .ok l')
    (hnamed : required.contains kind = true) (hbare : l.Bare kind) :
    (l'.release required).1.load.get? kind = none ∧ l.load.get? kind = some 0 := by
  have hstruck : ¬ (l'.release required).1.Lists kind := fun hlists =>
    ((release_commit_lists h kind).1 hlists).2 ⟨hnamed, hbare⟩
  constructor
  · rw [get?_load]
    exact if_neg hstruck
  · rw [get?_load, hbare.2]
    exact if_pos hbare.1

theorem release_commit_profile_iff (h : l.commit required = .ok l') (zero : l.meter.amount 0 = 0) :
    (l'.release required).1.profile = l.profile ↔
      ∀ kind, required.contains kind = true → l.limits.get? kind = none → ¬ l.Bare kind := by
  have hlimits : (l'.release required).1.limits = l.limits := by
    rw [release_limits, commit_limits h]
  have hmeter : (l'.release required).1.meter = l.meter := by rw [release_meter, commit_meter h]
  constructor
  · intro heq kind hnamed hnone hbare
    have hget : (l'.release required).1.profile.get? kind = l.profile.get? kind := by rw [heq]
    obtain ⟨hafter, hbefore⟩ := release_commit_get?_bare h hnamed hbare
    rw [get?_profile, get?_profile, hlimits, hnone, hafter, hbefore] at hget
    cases hget
  · intro hnone
    refine Table.ext_get? fun kind => ?_
    rw [get?_profile, get?_profile, hlimits, hmeter]
    by_cases hbare : required.contains kind = true ∧ l.Bare kind
    · obtain ⟨hafter, hbefore⟩ := release_commit_get?_bare h hbare.1 hbare.2
      cases hlimit : l.limits.get? kind with
      | none => exact absurd hbare.2 (hnone kind hbare.1 hlimit)
      | some limit => simp [hafter, hbefore, zero]
    · rw [release_commit_get? h hbare]

/-- What an operation does to a kind that it names: `true` if it commits it, `false` if it releases
it. -/
def Op.mark (l : Ledger) (kind : String) : Op → Option Bool
  | .check _ => none
  | .commit required | .commitIfFits required =>
    match l.commit required with
    | .ok _ => if required.contains kind then some true else none
    | .error _ => none
  | .release required => if required.contains kind then some false else none

/-- Whether, after operations, the last one that did something to a kind committed it. Before them,
`pending` says so. -/
def pendingAfter (kind : String) (l : Ledger) (pending : Bool) : List Op → Bool
  | [] => pending
  | op :: rest => pendingAfter kind (l.apply op) ((op.mark l kind).getD pending) rest

theorem apply_commitIfFits (l : Ledger) (required : Profile) :
    l.apply (.commitIfFits required) = l.apply (.commit required) := by
  simp only [apply, commitIfFits]
  cases l.commit required <;> rfl

/-- A kind is listed if it has units, or if its last commitment has not been released. -/
def ListedBy (l : Ledger) (kind : String) (pending : Bool) : Prop :=
  l.Lists kind ↔ 0 < l.committed kind ∨ pending = true

theorem commit_listedBy {pending : Bool} (hl : l.ListedBy kind pending)
    (h : l.commit required = .ok l') :
    l'.ListedBy kind ((if required.contains kind then some true else none).getD pending) := by
  rw [ListedBy, commit_lists_iff h, committed_commit h]
  cases hnamed : required.contains kind with
  | true => simp
  | false =>
    simpa [l.meter.demand_eq_zero hnamed, ListedBy] using hl

theorem release_listedBy {pending : Bool} (hl : l.ListedBy kind pending) (required : Profile) :
    (l.release required).1.ListedBy kind
      ((if required.contains kind then some false else none).getD pending) := by
  rw [ListedBy, release_lists_iff]
  cases hnamed : required.contains kind with
  | true =>
    constructor
    · exact fun h => .inl (h.2 rfl)
    · intro h
      have hpos := h.resolve_right (by simp)
      refine ⟨lists_of_committed (hpos.trans_le ?_), fun _ => hpos⟩
      rw [committed_release]
      exact Nat.sub_le _ _
  | false =>
    simpa [l.meter.demand_eq_zero hnamed, committed_release, ListedBy] using hl

theorem apply_listedBy {pending : Bool} (hl : l.ListedBy kind pending) (op : Op) :
    (l.apply op).ListedBy kind ((op.mark l kind).getD pending) := by
  cases op with
  | check required => exact hl
  | commit required =>
    rw [apply, Op.mark]
    cases h : l.commit required with
    | ok l' => exact commit_listedBy hl h
    | error s => exact hl
  | commitIfFits required =>
    rw [apply_commitIfFits, apply, Op.mark]
    cases h : l.commit required with
    | ok l' => exact commit_listedBy hl h
    | error s => exact hl
  | release required => exact release_listedBy hl required

theorem run_listedBy {pending : Bool} (hl : l.ListedBy kind pending) (ops : List Op) :
    (l.run ops).ListedBy kind (pendingAfter kind l pending ops) := by
  induction ops generalizing l pending with
  | nil => exact hl
  | cons op rest ih => exact ih (apply_listedBy hl op)

theorem new_listedBy (meter : Meter) (limits : Profile) (kind : String) :
    (new meter limits).ListedBy kind false := by
  simp [ListedBy, Lists, Table.contains, committed, new]

def Op.AddsUnits (meter : Meter) : Op → Prop
  | .commit required | .commitIfFits required =>
    ∀ kind, required.contains kind = true → 0 < meter.demand required kind
  | _ => True

theorem positive_iff : l.Positive kind ↔ (l.Lists kind → 0 < l.committed kind) := by
  refine ⟨Positive.committed_pos, fun h units hget => ?_⟩
  simpa [committed, hget] using h (lists_iff.2 ⟨units, hget⟩)

theorem commit_positive (hl : l.Positive kind) (h : l.commit required = .ok l')
    (adds : required.contains kind = true → 0 < l.meter.demand required kind) :
    l'.Positive kind := by
  rw [positive_iff, commit_lists_iff h, committed_commit h]
  rintro (hnamed | hlists)
  · exact Nat.add_pos_right _ (adds hnamed)
  · exact Nat.add_pos_left (hl.committed_pos hlists) _

theorem release_positive (hl : l.Positive kind) (required : Profile) :
    (l.release required).1.Positive kind := subtractAll_positive (.inl hl)

theorem apply_positive (hl : l.Positive kind) {op : Op} (adds : op.AddsUnits l.meter) :
    (l.apply op).Positive kind := by
  cases op with
  | check required => exact hl
  | commit required =>
    rw [apply]
    cases h : l.commit required with
    | ok l' => exact commit_positive hl h (adds kind)
    | error s => exact hl
  | commitIfFits required =>
    rw [apply_commitIfFits, apply]
    cases h : l.commit required with
    | ok l' => exact commit_positive hl h (adds kind)
    | error s => exact hl
  | release required => exact release_positive hl required

theorem run_positive (hl : l.Positive kind) {ops : List Op}
    (adds : ∀ op ∈ ops, op.AddsUnits l.meter) : (l.run ops).Positive kind := by
  induction ops generalizing l with
  | nil => exact hl
  | cons op rest ih =>
    refine ih (apply_positive hl (adds op List.mem_cons_self)) fun op' hop' => ?_
    rw [apply_meter]
    exact adds op' (List.mem_cons_of_mem _ hop')

theorem new_positive (meter : Meter) (limits : Profile) (kind : String) :
    (new meter limits).Positive kind := nofun

theorem not_bare_of_positive (h : l.Positive kind) : ¬ l.Bare kind := fun hbare =>
  Nat.ne_of_gt (h.committed_pos hbare.1) hbare.2

theorem isIdle_iff_of_positive (h : ∀ kind, l.Positive kind) :
    l.isIdle = true ↔ ∀ kind, l.committed kind = 0 := by
  rw [isIdle_iff]
  constructor
  · exact fun hnone kind => Nat.eq_zero_of_not_pos fun hpos => hnone kind (lists_of_committed hpos)
  · exact fun hzero kind hlists => Nat.ne_of_gt ((h kind).committed_pos hlists) (hzero kind)

/-- A release after its commitment raises no alarm and gives back every unit of every kind. It
restores the ledger itself, the load that is shown, and whether the ledger is idle, just where it
strikes nothing that was listed with no units before; and so always where no commitment named a
kind of which it added nothing. -/
theorem release_commit (meter : Meter) (limits : Profile) (ops : List Op)
    (zero : meter.amount 0 = 0)
    (h : ((new meter limits).run ops).commit required = .ok l') :
    (l'.release required).2 = [] ∧
    (∀ kind, (l'.release required).1.committed kind =
      ((new meter limits).run ops).committed kind) ∧
    ((l'.release required).1 = (new meter limits).run ops ↔
      ∀ kind, required.contains kind = true → ¬ ((new meter limits).run ops).Bare kind) ∧
    ((l'.release required).1.profile = ((new meter limits).run ops).profile ↔
      ∀ kind, required.contains kind = true → limits.get? kind = none →
        ¬ ((new meter limits).run ops).Bare kind) ∧
    ((l'.release required).1.isIdle = ((new meter limits).run ops).isIdle ↔
      ((new meter limits).run ops).isIdle = true ∨
        ∃ kind, ((new meter limits).run ops).Lists kind ∧
          ¬ (required.contains kind = true ∧ ((new meter limits).run ops).Bare kind)) ∧
    ((∀ op ∈ ops, op.AddsUnits meter) → (l'.release required).1 = (new meter limits).run ops) := by
  have hmeter : ((new meter limits).run ops).meter = meter := run_meter ..
  have hlimits : ∀ kind, ((new meter limits).run ops).limits.get? kind = none ↔
      limits.get? kind = none := by
    intro kind
    rw [Ledger.run_limits, new, Table.get?_map, Option.map_eq_none_iff]
  refine ⟨release_commit_alarms h, release_commit_committed h, release_commit_eq_iff h, ?_,
    release_commit_isIdle_iff h, fun adds => ?_⟩
  · simpa only [hlimits] using release_commit_profile_iff h (hmeter.symm ▸ zero)
  · refine (release_commit_eq_iff h).2 fun kind _ => not_bare_of_positive ?_
    exact run_positive (new_positive meter limits kind) adds

theorem release_commit_gpu : ∃ l', ((new .millionths (Table.ofList [(Profile.cpu, 2)])).run
      [.commit (Table.ofList [(Profile.cpu, 1)])]).commit
        (Table.ofList [(Profile.cpu, 1), ("gpu", 3)]) = .ok l' ∧
    (l'.release (Table.ofList [(Profile.cpu, 1), ("gpu", 3)])).1 =
      (new .millionths (Table.ofList [(Profile.cpu, 2)])).run
        [.commit (Table.ofList [(Profile.cpu, 1)])] := by
  refine ⟨_, rfl, ?_⟩
  obtain ⟨-, -, -, -, -, hrestored⟩ := release_commit .millionths
    (Table.ofList [(Profile.cpu, 2)]) [.commit (Table.ofList [(Profile.cpu, 1)])] rfl
    (show commit _ (Table.ofList [(Profile.cpu, 1), ("gpu", 3)]) = .ok _ from rfl)
  refine hrestored fun op hop => ?_
  obtain rfl := List.mem_singleton.1 hop
  intro kind hnamed
  obtain rfl : kind = Profile.cpu := List.mem_singleton.1 (Table.mem_names_iff.2 hnamed)
  decide

/-- A kind without a limit is committed with no units, and is then committed and released with some.
It was listed before, and is not afterwards. -/
theorem release_strikes_gpu : ∃ l l', l = (new .millionths (Table.ofList [(Profile.cpu, 2)])).run
      [.commit (Table.ofList [("gpu", 0)])] ∧
    l.commit (Table.ofList [("gpu", 1)]) = .ok l' ∧
    l.profile.get? "gpu" = some 0 ∧
    (l'.release (Table.ofList [("gpu", 1)])).1.profile.get? "gpu" = none ∧
    l.isIdle = false ∧ (l'.release (Table.ofList [("gpu", 1)])).1.isIdle = true :=
  ⟨_, _, rfl, rfl, rfl, rfl, rfl, rfl⟩

/-- A ledger is idle if and only if nothing is committed and every kind that a commitment named has
been released since. The load that it shows is then zero in every kind. As long as no commitment
names a kind of which it adds nothing, a ledger is idle if and only if nothing is committed. -/
theorem run_isIdle (meter : Meter) (limits : Profile) (ops : List Op) :
    (((new meter limits).run ops).isIdle = true ↔
      ∀ kind, ((new meter limits).run ops).committed kind = 0 ∧
        pendingAfter kind (new meter limits) false ops = false) ∧
    (((new meter limits).run ops).isIdle = true →
      ∀ kind amount, ((new meter limits).run ops).profile.get? kind = some amount → amount = 0) ∧
    ((∀ op ∈ ops, op.AddsUnits meter) → (((new meter limits).run ops).isIdle = true ↔
      ∀ kind, ((new meter limits).run ops).committed kind = 0)) := by
  refine ⟨?_, fun hidle kind amount hget => ?_, fun adds => ?_⟩
  · rw [isIdle_iff]
    refine forall_congr' fun kind => ?_
    have hlisted : _ ↔ _ := run_listedBy (new_listedBy meter limits kind) ops
    rw [hlisted]
    simp
  · rw [profile_of_isIdle hidle, Table.get?_map] at hget
    simp_all
  · exact isIdle_iff_of_positive fun kind => run_positive (new_positive meter limits kind) adds

theorem run_isIdle_released :
    ((new .millionths (Table.ofList [(Profile.cpu, 2)])).run
      [.commit (Table.ofList [(Profile.cpu, 1)]),
        .release (Table.ofList [(Profile.cpu, 1)])]).isIdle = true ↔
      ∀ kind, ((new .millionths (Table.ofList [(Profile.cpu, 2)])).run
        [.commit (Table.ofList [(Profile.cpu, 1)]),
          .release (Table.ofList [(Profile.cpu, 1)])]).committed kind = 0 := by
  obtain ⟨-, -, hidle⟩ := run_isIdle .millionths (Table.ofList [(Profile.cpu, 2)])
    [.commit (Table.ofList [(Profile.cpu, 1)]), .release (Table.ofList [(Profile.cpu, 1)])]
  refine hidle fun op hop => ?_
  rcases List.mem_cons.1 hop with rfl | hop
  · intro kind hnamed
    obtain rfl : kind = Profile.cpu := List.mem_singleton.1 (Table.mem_names_iff.2 hnamed)
    decide
  · obtain rfl := List.mem_singleton.1 hop
    trivial

theorem run_isIdle_zero : ∃ l, l = (new .millionths (Table.ofList [(Profile.cpu, 2)])).run
      [.commit (Table.ofList [(Profile.cpu, 0)])] ∧
    (∀ kind, l.committed kind = 0) ∧ l.profile.entries = [(Profile.cpu, 0)] ∧
    l.isIdle = false := by
  refine ⟨_, rfl, fun kind => ?_, rfl, rfl⟩
  have hload : ((new .millionths (Table.ofList [(Profile.cpu, 2)])).run
      [.commit (Table.ofList [(Profile.cpu, 0)])]).load.entries = [(Profile.cpu, 0)] := rfl
  rw [committed, Table.get?, hload, Table.lookup]
  split <;> rfl

end Ledger

end BoundedWorker
