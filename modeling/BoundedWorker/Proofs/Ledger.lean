import BoundedWorker.Resources.Ledger

/-!
What commitments and releases do to the units of each kind. A commitment that is accepted adds the
demand of its requirement to every kind, without loss at the largest number; a release takes the
demand off again, and raises no alarm while the demand is committed.
-/

namespace BoundedWorker

def Meter.demand (m : Meter) (required : Profile) (kind : String) : Nat :=
  ((required.get? kind).map m.units).getD 0

namespace Ledger

open Table (lookup lookup_tail)

theorem committed_foldl (f : Ledger → String → Float → Ledger) (g : Nat → Nat → Nat)
    (hmeter : ∀ l kind amount, (f l kind amount).meter = l.meter)
    (hf : ∀ l kind amount other, (f l kind amount).committed other =
      if kind = other then g (l.committed kind) (l.meter.units amount) else l.committed other)
    (l : Ledger) {entries : List (String × Float)} (hinc : NamesIncrease entries) (kind : String) :
    (entries.foldl (fun l e => f l e.1 e.2) l).committed kind =
      match lookup kind entries with
      | some amount => g (l.committed kind) (l.meter.units amount)
      | none => l.committed kind := by
  induction entries generalizing l with
  | nil => rfl
  | cons e rest ih =>
    obtain ⟨n, b⟩ := e
    have hrest := ih (f l n b) (List.pairwise_cons.1 hinc).2
    simp only [List.foldl_cons, hrest, hmeter, hf]
    by_cases hn : n = kind
    · -- the names increase, so no later entry touches this kind again
      subst hn
      simp [lookup, lookup_tail hinc]
    · simp [lookup, hn]

@[simp] theorem add_meter (l : Ledger) (kind : String) (amount : Float) :
    (l.add kind amount).meter = l.meter := rfl

theorem committed_add (l : Ledger) (kind : String) (amount : Float) (other : String) :
    (l.add kind amount).committed other =
      if kind = other then min (l.committed kind + l.meter.units amount) unitsMax
      else l.committed other := by
  simp only [committed, add, Table.get?_insert]
  split <;> rfl

@[simp] theorem addAll_meter (l : Ledger) (entries : List (String × Float)) :
    (l.addAll entries).meter = l.meter := by
  induction entries generalizing l with
  | nil => rfl
  | cons e rest ih => exact ih (l.add e.1 e.2)

@[simp] theorem addAll_limits (l : Ledger) (entries : List (String × Float)) :
    (l.addAll entries).limits = l.limits := by
  induction entries generalizing l with
  | nil => rfl
  | cons e rest ih => exact ih (l.add e.1 e.2)

theorem committed_addAll (l : Ledger) {entries : List (String × Float)}
    (hinc : NamesIncrease entries) (kind : String) :
    (l.addAll entries).committed kind =
      match lookup kind entries with
      | some amount => min (l.committed kind + l.meter.units amount) unitsMax
      | none => l.committed kind :=
  committed_foldl add (fun c u => min (c + u) unitsMax) add_meter committed_add l hinc kind

theorem fits_iff (l : Ledger) (kind : String) (amount : Float) :
    l.fits kind amount = true ↔
      l.committed kind + l.meter.units amount ≤ unitsMax ∧
        l.committed kind + l.meter.units amount ≤ l.ceiling kind := by
  simp [fits]

theorem check_eq_ok_iff (l : Ledger) (required : Profile) :
    l.check required = .ok () ↔
      ∀ kind amount, required.get? kind = some amount → l.fits kind amount = true := by
  rw [check]
  constructor
  · intro h kind amount hget
    cases hfind : required.entries.find? fun e => !l.fits e.1 e.2 with
    | some e => simp [hfind] at h
    | none =>
      have hfit := List.find?_eq_none.1 hfind (kind, amount) (Table.mem_entries_iff.2 hget)
      simpa using hfit
  · intro h
    have hnone : (required.entries.find? fun e => !l.fits e.1 e.2) = none := by
      refine List.find?_eq_none.2 fun e he => ?_
      simp [h e.1 e.2 (Table.mem_entries_iff.1 he)]
    simp [hnone]

theorem commit_eq_ok_iff {l l' : Ledger} {required : Profile} :
    l.commit required = .ok l' ↔ l.check required = .ok () ∧ l' = l.addAll required.entries := by
  rw [commit]
  cases h : l.check required with
  | error s => simp [Except.map]
  | ok u => simp [Except.map, eq_comm]

theorem commit_meter {l l' : Ledger} {required : Profile} (h : l.commit required = .ok l') :
    l'.meter = l.meter := by
  rw [(commit_eq_ok_iff.1 h).2, addAll_meter]

theorem commit_limits {l l' : Ledger} {required : Profile} (h : l.commit required = .ok l') :
    l'.limits = l.limits := by
  rw [(commit_eq_ok_iff.1 h).2, addAll_limits]

theorem check_fits {l : Ledger} {required : Profile} {kind : String} {amount : Float}
    (h : l.check required = .ok ()) (hget : required.get? kind = some amount) :
    l.committed kind + l.meter.units amount ≤ unitsMax ∧
      l.committed kind + l.meter.units amount ≤ l.ceiling kind :=
  (l.fits_iff kind amount).1 ((l.check_eq_ok_iff required).1 h kind amount hget)

theorem committed_commit {l l' : Ledger} {required : Profile} (h : l.commit required = .ok l')
    (kind : String) :
    l'.committed kind = l.committed kind + l.meter.demand required kind := by
  obtain ⟨hcheck, rfl⟩ := commit_eq_ok_iff.1 h
  rw [l.committed_addAll required.increasing, Meter.demand, Table.get?]
  cases hget : lookup kind required.entries with
  | none => rfl
  | some amount =>
    -- the check has bounded the sum, so the minimum cuts nothing off
    exact Nat.min_eq_left (check_fits hcheck hget).1

@[simp] theorem subtract_meter (l : Ledger) (kind : String) (amount : Float) :
    (l.subtract kind amount).1.meter = l.meter := by
  rw [subtract]
  split <;> rfl

@[simp] theorem subtract_limits (l : Ledger) (kind : String) (amount : Float) :
    (l.subtract kind amount).1.limits = l.limits := by
  rw [subtract]
  split <;> rfl

theorem committed_subtract (l : Ledger) (kind : String) (amount : Float) (other : String) :
    (l.subtract kind amount).1.committed other =
      if kind = other then l.committed kind - l.meter.units amount else l.committed other := by
  unfold subtract committed
  cases hget : l.load.get? kind with
  | none =>
    by_cases hk : kind = other
    · subst hk
      simp [hget]
    · simp [hk]
  | some current =>
    by_cases hzero : current - l.meter.units amount = 0
    · simp only [hzero, if_true, Table.get?_erase]
      split <;> simp [hzero]
    · simp only [hzero, if_false, Table.get?_insert]
      split <;> simp

theorem subtract_alarms (l : Ledger) {kind : String} {amount : Float}
    (h : l.meter.units amount ≤ l.committed kind) : (l.subtract kind amount).2 = [] := by
  rw [subtract, committed] at *
  cases hget : l.load.get? kind with
  | none =>
    have hzero : l.meter.units amount = 0 := by simpa [hget] using h
    simp [hzero]
  | some current =>
    have hle : l.meter.units amount ≤ current := by simpa [hget] using h
    simp [Nat.not_lt.2 hle]

theorem subtractAll_fst (l : Ledger) (entries : List (String × Float)) :
    (l.subtractAll entries).1 = entries.foldl (fun l e => (l.subtract e.1 e.2).1) l := by
  induction entries generalizing l with
  | nil => rfl
  | cons e rest ih => exact ih (l.subtract e.1 e.2).1

@[simp] theorem subtractAll_meter (l : Ledger) (entries : List (String × Float)) :
    (l.subtractAll entries).1.meter = l.meter := by
  induction entries generalizing l with
  | nil => rfl
  | cons e rest ih => exact (ih (l.subtract e.1 e.2).1).trans (l.subtract_meter e.1 e.2)

@[simp] theorem subtractAll_limits (l : Ledger) (entries : List (String × Float)) :
    (l.subtractAll entries).1.limits = l.limits := by
  induction entries generalizing l with
  | nil => rfl
  | cons e rest ih => exact (ih (l.subtract e.1 e.2).1).trans (l.subtract_limits e.1 e.2)

theorem subtractAll_alarms (l : Ledger) {entries : List (String × Float)}
    (hinc : NamesIncrease entries)
    (h : ∀ e ∈ entries, l.meter.units e.2 ≤ l.committed e.1) : (l.subtractAll entries).2 = [] := by
  induction entries generalizing l with
  | nil => rfl
  | cons e rest ih =>
    have hx := List.pairwise_cons.1 hinc
    have hfirst := l.subtract_alarms (h e List.mem_cons_self)
    have hrest := ih (l.subtract e.1 e.2).1 hx.2 fun d hd => by
      have hne : e.1 ≠ d.1 := fun he => String.lt_irrefl e.1 (by simpa [he] using hx.1 d hd)
      rw [subtract_meter, committed_subtract, if_neg hne]
      exact h d (List.mem_cons_of_mem _ hd)
    simp [subtractAll, hfirst, hrest]

@[simp] theorem release_meter (l : Ledger) (required : Profile) :
    (l.release required).1.meter = l.meter :=
  l.subtractAll_meter required.entries

@[simp] theorem release_limits (l : Ledger) (required : Profile) :
    (l.release required).1.limits = l.limits :=
  l.subtractAll_limits required.entries

theorem committed_release (l : Ledger) (required : Profile) (kind : String) :
    (l.release required).1.committed kind =
      l.committed kind - l.meter.demand required kind := by
  have h := committed_foldl (fun l kind amount => (l.subtract kind amount).1) (· - ·)
    subtract_meter committed_subtract l required.increasing kind
  rw [release, subtractAll_fst, h, Meter.demand, Table.get?]
  cases lookup kind required.entries with
  | none => rfl
  | some amount => rfl

theorem release_alarms (l : Ledger) (required : Profile)
    (h : ∀ kind, l.meter.demand required kind ≤ l.committed kind) :
    (l.release required).2 = [] := by
  refine l.subtractAll_alarms required.increasing fun e he => ?_
  have hget : required.get? e.1 = some e.2 := Table.mem_entries_iff.1 he
  simpa [Meter.demand, hget] using h e.1

inductive Op where
  | check (required : Profile)
  | commit (required : Profile)
  | commitIfFits (required : Profile)
  | release (required : Profile)

def apply (l : Ledger) : Op → Ledger
  | .check _ => l
  | .commit required =>
    match l.commit required with
    | .ok l' => l'
    | .error _ => l
  | .commitIfFits required => (l.commitIfFits required).1
  | .release required => (l.release required).1

def run (l : Ledger) (ops : List Op) : Ledger := ops.foldl apply l

theorem apply_commit_of_ok {l l' : Ledger} {required : Profile} (h : l.commit required = .ok l') :
    l.apply (.commit required) = l' := by
  simp [apply, h]

theorem apply_cases (l : Ledger) (op : Op) :
    l.apply op = l ∨ (∃ required, l.commit required = .ok (l.apply op)) ∨
      ∃ required, l.apply op = (l.release required).1 := by
  cases op with
  | check required => exact .inl rfl
  | commit required =>
    cases h : l.commit required with
    | ok l' => exact .inr (.inl ⟨required, by simp [apply, h]⟩)
    | error s => exact .inl (by simp [apply, h])
  | commitIfFits required =>
    cases h : l.commit required with
    | ok l' => exact .inr (.inl ⟨required, by simp [apply, commitIfFits, h]⟩)
    | error s => exact .inl (by simp [apply, commitIfFits, h])
  | release required => exact .inr (.inr ⟨required, rfl⟩)

@[simp] theorem apply_meter (l : Ledger) (op : Op) : (l.apply op).meter = l.meter := by
  rcases l.apply_cases op with h | ⟨required, h⟩ | ⟨required, h⟩
  · rw [h]
  · exact commit_meter h
  · rw [h, release_meter]

@[simp] theorem apply_limits (l : Ledger) (op : Op) : (l.apply op).limits = l.limits := by
  rcases l.apply_cases op with h | ⟨required, h⟩ | ⟨required, h⟩
  · rw [h]
  · exact commit_limits h
  · rw [h, release_limits]

theorem run_meter (l : Ledger) (ops : List Op) : (l.run ops).meter = l.meter := by
  induction ops generalizing l with
  | nil => rfl
  | cons op rest ih => exact (ih (l.apply op)).trans (l.apply_meter op)

theorem run_limits (l : Ledger) (ops : List Op) : (l.run ops).limits = l.limits := by
  induction ops generalizing l with
  | nil => rfl
  | cons op rest ih => exact (ih (l.apply op)).trans (l.apply_limits op)

theorem run_append (l : Ledger) (earlier later : List Op) :
    l.run (earlier ++ later) = (l.run earlier).run later :=
  List.foldl_append ..

end Ledger

end BoundedWorker
