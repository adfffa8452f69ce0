import BoundedWorker.Proofs.Accounting

/-!
No kind is ever committed beyond its ceiling: not by any sequence of operations on a ledger,
whatever amounts they name and whether or not a release has a commitment behind it, and so not by
any run of a worker. The largest number that can be counted is never reached by cutting a sum off.
-/

namespace BoundedWorker

namespace Ledger

def Bounded (l : Ledger) : Prop := ∀ kind, l.committed kind ≤ l.ceiling kind

theorem ceiling_new (meter : Meter) (limits : Profile) (kind : String) :
    (new meter limits).ceiling kind = ((limits.get? kind).map meter.units).getD unitsMax := by
  rw [ceiling, new, Table.get?_map]

theorem ceiling_congr {l l' : Ledger} (h : l'.limits = l.limits) (kind : String) :
    l'.ceiling kind = l.ceiling kind := by
  rw [ceiling, ceiling, h]

theorem new_bounded (meter : Meter) (limits : Profile) : (new meter limits).Bounded :=
  fun _ => Nat.zero_le _

theorem commit_bounded {l l' : Ledger} (hl : l.Bounded) {required : Profile}
    (h : l.commit required = .ok l') : l'.Bounded := by
  intro kind
  rw [ceiling_congr (commit_limits h), committed_commit h, Meter.demand]
  cases hget : required.get? kind with
  | none => exact hl kind
  | some amount => exact (check_fits (commit_eq_ok_iff.1 h).1 hget).2

theorem release_bounded {l : Ledger} (hl : l.Bounded) (required : Profile) :
    (l.release required).1.Bounded := by
  intro kind
  rw [ceiling_congr (l.release_limits required), committed_release]
  exact Nat.le_trans (Nat.sub_le _ _) (hl kind)

theorem apply_bounded {l : Ledger} (hl : l.Bounded) (op : Op) : (l.apply op).Bounded := by
  rcases l.apply_cases op with h | ⟨required, h⟩ | ⟨required, h⟩
  · rwa [h]
  · exact commit_bounded hl h
  · rw [h]
    exact release_bounded hl required

theorem run_bounded {l : Ledger} (hl : l.Bounded) (ops : List Op) : (l.run ops).Bounded := by
  induction ops generalizing l with
  | nil => exact hl
  | cons op rest ih => exact ih (apply_bounded hl op)

theorem committed_before (l : Ledger) {required : Profile} {before after : List (String × Float)}
    {kind : String} {amount : Float} (h : required.entries = before ++ (kind, amount) :: after) :
    (l.addAll before).committed kind = l.committed kind := by
  have hinc : NamesIncrease (before ++ (kind, amount) :: after) := h ▸ required.increasing
  obtain ⟨hbefore, -, hlt⟩ := List.pairwise_append.1 hinc
  have hnone : Table.lookup kind before = none := by
    cases hget : Table.lookup kind before with
    | none => rfl
    | some a =>
      have := hlt _ (Table.mem_of_lookup hget) _ List.mem_cons_self
      exact absurd this (String.lt_irrefl kind)
  -- when the turn of an entry comes, its kind has what it had at the check
  rw [committed_addAll l hbefore, hnone]

theorem add_not_cut {l : Ledger} {required : Profile} (hcheck : l.check required = .ok ())
    {before after : List (String × Float)} {kind : String} {amount : Float}
    (h : required.entries = before ++ (kind, amount) :: after) :
    (l.addAll before).committed kind + l.meter.units amount ≤ unitsMax := by
  have hget : required.get? kind = some amount :=
    Table.mem_entries_iff.1 (h ▸ List.mem_append_right _ List.mem_cons_self)
  rw [committed_before l h]
  exact (check_fits hcheck hget).1

end Ledger

open Ledger (Op) in
/-- The ceiling of a kind is its limit, or what can be counted if it has none. It is kept by every
sequence of operations, no sum of an accepted commitment is cut off, and no run of a worker exceeds
a limit of its configuration. -/
theorem committed_le_ceiling (meter : Meter) :
    (∀ (limits : Profile) (ops : List Op) (kind : String),
      ((Ledger.new meter limits).run ops).committed kind ≤
        ((limits.get? kind).map meter.units).getD unitsMax) ∧
    (∀ (limits : Profile) (ops : List Op) (required : Profile),
      ((Ledger.new meter limits).run ops).check required = .ok () →
        ∀ before kind amount after, required.entries = before ++ (kind, amount) :: after →
          (((Ledger.new meter limits).run ops).addAll before).committed kind +
            meter.units amount ≤ unitsMax) ∧
    (∀ (config : Config) (w : Worker), Worker.start meter config = .ok w →
      ∀ (events : List Event) (kind : String) (amount : Float),
        config.limits.get? kind = some amount →
          (w.run events).1.ledger.committed kind ≤ meter.units amount) := by
  have hops : ∀ (limits : Profile) (ops : List Op) (kind : String),
      ((Ledger.new meter limits).run ops).committed kind ≤
        ((limits.get? kind).map meter.units).getD unitsMax := by
    intro limits ops kind
    have hbound := Ledger.run_bounded (Ledger.new_bounded meter limits) ops kind
    rwa [Ledger.ceiling_congr (Ledger.run_limits _ ops), Ledger.ceiling_new] at hbound
  refine ⟨hops, ?_, ?_⟩
  · intro limits ops required hcheck before kind amount after h
    have hmeter : ((Ledger.new meter limits).run ops).meter = meter := Ledger.run_meter _ ops
    have hsum := Ledger.add_not_cut hcheck h
    rwa [hmeter] at hsum
  · intro config w hstart events kind amount hlimit
    obtain ⟨ops, hrun⟩ := Worker.run_ledger (Worker.start_sound hstart) events
    have hnew : w.ledger = .new meter config.limits :=
      congrArg Books.ledger (Worker.start_books hstart)
    have hbound := hops config.limits ops kind
    rwa [← hnew, ← hrun, hlimit] at hbound

theorem committed_le_two_cores : ∃ l, l = (Ledger.new .millionths (Config.standard "w").limits).run
      [.commitIfFits (Table.ofList [(Profile.cpu, 1e18)]), .release TaskRequest.defaultRequired] ∧
    l.committed Profile.cpu ≤ 2000000 ∧ l.check TaskRequest.defaultRequired = .ok () ∧
    (l.addAll [(Profile.cpu, 0.5)]).committed Profile.memory + 1000000 ≤ unitsMax ∧
    ∃ w, Worker.start .millionths (.standard "w") = .ok w ∧
      (w.run [.submit (.new "a" .null) 0]).1.ledger.committed Profile.cpu ≤ 2000000 := by
  obtain ⟨hops, hsum, hrun⟩ := committed_le_ceiling .millionths
  refine ⟨_, rfl, ?_, rfl, ?_, _, rfl, ?_⟩
  · exact hops (Config.standard "w").limits _ Profile.cpu
  · exact hsum (Config.standard "w").limits _ TaskRequest.defaultRequired rfl
      [(Profile.cpu, 0.5)] Profile.memory 1 [] rfl
  · exact hrun (.standard "w") _ rfl [.submit (.new "a" .null) 0] Profile.cpu 2 rfl

end BoundedWorker
