import BoundedWorker.Proofs.ZeroUnits
import Mathlib.Data.List.Perm.Basic

/-!
Many requirements at one ledger. Commitments and releases may come in any order: at every point the
ledger has committed what those requirements ask for that it has accepted and that have not been
released, and once the last of them is released it is as it was when it was new. Requirements that
are accepted one after another are accepted in every order, and lead to the same ledger.
-/

namespace BoundedWorker

namespace Ledger

variable {l l' l₁ l₂ : Ledger} {required other : Profile} {held rest : List Profile}

/-- A ledger has committed what the requirements ask for that are out, and lists no kind that none of
them names. -/
structure Backs (l : Ledger) (held : List Profile) : Prop where
  committed : ∀ kind, l.committed kind = (held.map fun r => l.meter.demand r kind).sum
  named : ∀ kind, l.Lists kind → ∃ r ∈ held, r.contains kind = true

namespace Backs

theorem new (meter : Meter) (limits : Profile) : (Ledger.new meter limits).Backs [] := by
  refine ⟨fun kind => rfl, fun kind hlists => ?_⟩
  simp [Lists, Table.contains, Ledger.new] at hlists

theorem commit (h : l.Backs held) (fits : l.commit required = .ok l') :
    l'.Backs (held ++ [required]) := by
  refine ⟨fun kind => ?_, fun kind hlists => ?_⟩
  · rw [committed_commit fits, commit_meter fits, h.committed kind]
    simp
  · rcases commit_lists fits hlists with hnamed | hlists
    · exact ⟨required, by simp, hnamed⟩
    · obtain ⟨r, hr, hnamed⟩ := h.named kind hlists
      exact ⟨r, List.mem_append_left _ hr, hnamed⟩

theorem committed_eq_add (h : l.Backs held) (out : held.Perm (required :: rest)) (kind : String) :
    l.committed kind =
      l.meter.demand required kind + (rest.map fun r => l.meter.demand r kind).sum := by
  rw [h.committed kind, (out.map _).sum_eq, List.map_cons, List.sum_cons]

theorem release_alarms (h : l.Backs held) (out : held.Perm (required :: rest)) :
    (l.release required).2 = [] :=
  Ledger.release_alarms l required fun kind => h.committed_eq_add out kind ▸ Nat.le_add_right _ _

theorem release (h : l.Backs held) (out : held.Perm (required :: rest)) :
    (l.release required).1.Backs rest := by
  have hcommitted : ∀ kind, (l.release required).1.committed kind =
      (rest.map fun r => l.meter.demand r kind).sum := by
    intro kind
    rw [committed_release, h.committed_eq_add out kind]
    exact Nat.add_sub_cancel_left _ _
  refine ⟨fun kind => by rw [hcommitted kind, release_meter], fun kind => ?_⟩
  refine release_named (hcommitted kind) fun hbefore => ?_
  obtain ⟨r, hr, hnamed⟩ := h.named kind hbefore
  rcases List.mem_cons.1 (out.mem_iff.1 hr) with rfl | hr
  · exact .inl hnamed
  · exact .inr ⟨r, hr, hnamed⟩

theorem eq_new (h : l.Backs []) {meter : Meter} {limits : Profile} (hmeter : l.meter = meter)
    (hlimits : l.limits = (Ledger.new meter limits).limits) : l = .new meter limits := by
  refine eq_of_lists hmeter hlimits (fun kind => ?_) h.committed
  have hnone : ¬ l.Lists kind := fun hlists => by simpa using h.named kind hlists
  have hnew : ¬ (Ledger.new meter limits).Lists kind := fun hlists => by
    simpa using (Backs.new meter limits).named kind hlists
  exact iff_of_false hnone hnew

end Backs

structure Account where
  ledger : Ledger
  held : List Profile

namespace Account

inductive Move where
  | commit (required : Profile)
  | release (place : Nat)

def opened (meter : Meter) (limits : Profile) : Account := ⟨.new meter limits, []⟩

def apply (a : Account) : Move → Account × List LedgerAlarm
  | .commit required =>
    match a.ledger.commit required with
    | .ok ledger => (⟨ledger, a.held ++ [required]⟩, [])
    | .error _ => (a, [])
  | .release place =>
    match a.held[place]? with
    | some required =>
      let (ledger, alarms) := a.ledger.release required
      (⟨ledger, a.held.eraseIdx place⟩, alarms)
    | none => (a, [])

def run (a : Account) : List Move → Account × List LedgerAlarm
  | [] => (a, [])
  | m :: rest =>
    let (b, alarms) := a.apply m
    let (c, more) := b.run rest
    (c, alarms ++ more)

structure Sound (a : Account) (meter : Meter) (limits : Profile) : Prop where
  backs : a.ledger.Backs a.held
  meter_eq : a.ledger.meter = meter
  limits_eq : a.ledger.limits = (Ledger.new meter limits).limits

variable {a : Account} {meter : Meter} {limits : Profile}

theorem opened_sound (meter : Meter) (limits : Profile) :
    (opened meter limits).Sound meter limits :=
  ⟨.new meter limits, rfl, rfl⟩

theorem apply_sound (h : a.Sound meter limits) (m : Move) :
    (a.apply m).1.Sound meter limits ∧ (a.apply m).2 = [] := by
  cases m with
  | commit required =>
    rw [apply]
    cases fits : a.ledger.commit required with
    | error s => exact ⟨h, rfl⟩
    | ok ledger =>
      exact ⟨⟨h.backs.commit fits, (commit_meter fits).trans h.meter_eq,
        (commit_limits fits).trans h.limits_eq⟩, rfl⟩
  | release place =>
    rw [apply]
    cases found : a.held[place]? with
    | none => exact ⟨h, rfl⟩
    | some required =>
      obtain ⟨hplace, rfl⟩ := List.getElem?_eq_some_iff.1 found
      have out := (List.getElem_cons_eraseIdx_perm hplace).symm
      exact ⟨⟨h.backs.release out, (release_meter ..).trans h.meter_eq,
        (release_limits ..).trans h.limits_eq⟩, h.backs.release_alarms out⟩

theorem run_sound (h : a.Sound meter limits) (moves : List Move) :
    (a.run moves).1.Sound meter limits ∧ (a.run moves).2 = [] := by
  induction moves generalizing a with
  | nil => exact ⟨h, rfl⟩
  | cons m rest ih =>
    obtain ⟨hnext, halarms⟩ := apply_sound h m
    obtain ⟨hlast, hmore⟩ := ih hnext
    refine ⟨hlast, ?_⟩
    simp only [run, halarms, hmore, List.append_nil]

/-- Whatever is committed, accepted or not, and however accepted requirements are released, each of
them once: the units of every kind are at every point the sum of what those that are held ask for, no
release raises an alarm, and when none is held any more, the ledger is as it was when it was new. -/
theorem run_held (meter : Meter) (limits : Profile) (moves : List Move) :
    (∀ kind, ((opened meter limits).run moves).1.ledger.committed kind =
      (((opened meter limits).run moves).1.held.map fun r => meter.demand r kind).sum) ∧
    ((opened meter limits).run moves).2 = [] ∧
    (((opened meter limits).run moves).1.held = [] →
      ((opened meter limits).run moves).1.ledger = .new meter limits) := by
  obtain ⟨hsound, halarms⟩ := run_sound (opened_sound meter limits) moves
  refine ⟨fun kind => ?_, halarms, fun hnone => ?_⟩
  · rw [hsound.backs.committed kind, hsound.meter_eq]
  · exact (hnone ▸ hsound.backs).eq_new hsound.meter_eq hsound.limits_eq

theorem run_held_edge : ∃ c, c = (opened .millionths (Table.ofList [(Profile.cpu, 2)])).run
      [.commit (Table.ofList [(Profile.cpu, 0)]),
        .commit (Table.ofList [(Profile.cpu, 1), ("gpu", 1e13)]),
        .commit (Table.ofList [("gpu", 1e13)]), .release 1, .release 0] ∧
    c.1.held = [] ∧ c.2 = [] ∧ c.1.ledger = .new .millionths (Table.ofList [(Profile.cpu, 2)]) := by
  refine ⟨_, rfl, rfl, ?_⟩
  obtain ⟨-, halarms, hnew⟩ := run_held .millionths (Table.ofList [(Profile.cpu, 2)])
    [.commit (Table.ofList [(Profile.cpu, 0)]),
      .commit (Table.ofList [(Profile.cpu, 1), ("gpu", 1e13)]),
      .commit (Table.ofList [("gpu", 1e13)]), .release 1, .release 0]
  exact ⟨halarms, hnew rfl⟩

end Account

theorem check_eq_ok_iff_demand (l : Ledger) (required : Profile) : l.check required = .ok () ↔
    ∀ kind, required.contains kind = true →
      l.committed kind + l.meter.demand required kind ≤ min unitsMax (l.ceiling kind) := by
  rw [check_eq_ok_iff]
  constructor
  · intro h kind hnamed
    obtain ⟨amount, hget⟩ := Option.isSome_iff_exists.1 hnamed
    have hfits := (l.fits_iff kind amount).1 (h kind amount hget)
    simpa [Meter.demand, hget, Nat.le_min] using hfits
  · intro h kind amount hget
    have hle := h kind (Option.isSome_iff_exists.2 ⟨amount, hget⟩)
    rw [fits_iff]
    simpa [Meter.demand, hget, Nat.le_min] using hle

theorem commit_eq_ok_iff_demand : (∃ l', l.commit required = .ok l') ↔
    ∀ kind, required.contains kind = true →
      l.committed kind + l.meter.demand required kind ≤ min unitsMax (l.ceiling kind) := by
  rw [← check_eq_ok_iff_demand]
  exact ⟨fun ⟨_, h⟩ => (commit_eq_ok_iff.1 h).1, fun h => ⟨_, commit_eq_ok_iff.2 ⟨h, rfl⟩⟩⟩

theorem commit_commit_eq (first : l.commit required = .ok l₁) (second : l₁.commit other = .ok l₂)
    {m₁ m₂ : Ledger} (first' : l.commit other = .ok m₁) (second' : m₁.commit required = .ok m₂) :
    m₂ = l₂ := by
  refine eq_of_lists ?_ ?_ (fun kind => ?_) fun kind => ?_
  · rw [commit_meter second', commit_meter first', commit_meter second, commit_meter first]
  · rw [commit_limits second', commit_limits first', commit_limits second, commit_limits first]
  · rw [commit_lists_iff second', commit_lists_iff first', commit_lists_iff second,
      commit_lists_iff first]
    exact or_left_comm
  · rw [committed_commit second', committed_commit first', committed_commit second,
      committed_commit first, commit_meter first', commit_meter first]
    exact Nat.add_right_comm ..

theorem commit_comm (first : l.commit required = .ok l₁) (second : l₁.commit other = .ok l₂) :
    ∃ m, l.commit other = .ok m ∧ m.commit required = .ok l₂ := by
  have hfirst := commit_eq_ok_iff_demand.1 ⟨_, first⟩
  have hsecond := commit_eq_ok_iff_demand.1 ⟨_, second⟩
  simp only [committed_commit first, commit_meter first, ceiling_congr (commit_limits first)]
    at hsecond
  obtain ⟨m₁, first'⟩ : ∃ m₁, l.commit other = .ok m₁ := by
    refine commit_eq_ok_iff_demand.2 fun kind hother => ?_
    exact Nat.le_trans (Nat.add_le_add_right (Nat.le_add_right _ _) _) (hsecond kind hother)
  obtain ⟨m₂, second'⟩ : ∃ m₂, m₁.commit required = .ok m₂ := by
    refine commit_eq_ok_iff_demand.2 fun kind hrequired => ?_
    rw [committed_commit first', commit_meter first', ceiling_congr (commit_limits first')]
    cases hother : other.contains kind with
    | true => exact Nat.add_right_comm .. ▸ hsecond kind hother
    | false => simpa [l.meter.demand_eq_zero hother] using hfirst kind hrequired
  exact ⟨m₁, first', commit_commit_eq first second first' second' ▸ second'⟩

def commitAll (l : Ledger) (rs : List Profile) : Except Shortfall Ledger := rs.foldlM commit l

theorem commitAll_cons_iff : l.commitAll (required :: rest) = .ok l' ↔
    ∃ m, l.commit required = .ok m ∧ m.commitAll rest = .ok l' := by
  rw [commitAll, List.foldlM_cons]
  cases l.commit required with
  | error s => simp [bind, Except.bind]
  | ok m => simp [bind, Except.bind, commitAll]

/-- Requirements that a ledger accepts one after another, whatever it had accepted before, are also
accepted one after another in every other order, and lead to the same ledger. -/
theorem commitAll_of_perm {rs ss : List Profile} (perm : rs.Perm ss)
    (accepted : l.commitAll rs = .ok l') : l.commitAll ss = .ok l' := by
  induction perm generalizing l with
  | nil => exact accepted
  | cons required perm ih =>
    obtain ⟨m, hfirst, hrest⟩ := commitAll_cons_iff.1 accepted
    exact commitAll_cons_iff.2 ⟨m, hfirst, ih hrest⟩
  | swap required other rest =>
    obtain ⟨m, hother, hmore⟩ := commitAll_cons_iff.1 accepted
    obtain ⟨n, hrequired, hrest⟩ := commitAll_cons_iff.1 hmore
    obtain ⟨k, hfirst, hsecond⟩ := commit_comm hother hrequired
    exact commitAll_cons_iff.2 ⟨k, hfirst, commitAll_cons_iff.2 ⟨n, hsecond, hrest⟩⟩
  | trans perm more ih ihmore => exact ihmore (ih accepted)

theorem commitAll_of_perm_full : ∃ l, l = (new .millionths (Table.ofList [(Profile.cpu, 2)])).run
      [.commit (Table.ofList [(Profile.cpu, 1)])] ∧ ∃ l',
    l.commitAll [Table.ofList [("gpu", 1e18)], Table.ofList [(Profile.cpu, 0.25), ("gpu", 0)],
      Table.ofList [(Profile.cpu, 0.75)]] = .ok l' ∧
    l.commitAll [Table.ofList [(Profile.cpu, 0.75)], Table.ofList [(Profile.cpu, 0.25), ("gpu", 0)],
      Table.ofList [("gpu", 1e18)]] = .ok l' := by
  have accepted : ((new .millionths (Table.ofList [(Profile.cpu, 2)])).run
      [.commit (Table.ofList [(Profile.cpu, 1)])]).commitAll [Table.ofList [("gpu", 1e18)],
        Table.ofList [(Profile.cpu, 0.25), ("gpu", 0)], Table.ofList [(Profile.cpu, 0.75)]] =
      .ok _ := rfl
  exact ⟨_, rfl, _, accepted, commitAll_of_perm (List.reverse_perm _).symm accepted⟩

end Ledger

end BoundedWorker
