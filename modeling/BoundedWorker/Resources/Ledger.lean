import BoundedWorker.Resources.Meter
import BoundedWorker.Resources.Profile

/-!
The ledger: how many units of each kind are committed, under limits. A requirement is committed for
all of its kinds or for none. Kinds without a limit are bounded only by what can be counted.
-/

namespace BoundedWorker

structure Shortfall where
  kind : String
  requested : Float
  available : Float

inductive LedgerAlarm where
  | exceedsLoad (kind : String) (current released : Float)
  | uncommitted (kind : String) (released : Float)

def LedgerAlarm.message : LedgerAlarm → String
  | exceedsLoad _ _ _ => "ledger release exceeds committed load"
  | uncommitted _ _ => "ledger release for uncommitted kind"

structure Ledger where
  meter : Meter
  limits : Table Nat
  load : Table Nat

namespace Ledger

def new (meter : Meter) (limits : Profile) : Ledger :=
  ⟨meter, limits.map meter.units, .empty⟩

def committed (l : Ledger) (kind : String) : Nat := (l.load.get? kind).getD 0

def ceiling (l : Ledger) (kind : String) : Nat := (l.limits.get? kind).getD unitsMax

/-- Sums above the largest number that can be counted fit under no ceiling. -/
def fits (l : Ledger) (kind : String) (amount : Float) : Bool :=
  let total := l.committed kind + l.meter.units amount
  total ≤ unitsMax && total ≤ l.ceiling kind

def shortfall (l : Ledger) (kind : String) (amount : Float) : Shortfall :=
  ⟨kind, amount, l.meter.amount (l.ceiling kind - l.committed kind)⟩

def check (l : Ledger) (required : Profile) : Except Shortfall Unit :=
  match required.entries.find? fun e => !l.fits e.1 e.2 with
  | some (kind, amount) => .error (l.shortfall kind amount)
  | none => .ok ()

def add (l : Ledger) (kind : String) (amount : Float) : Ledger :=
  let total := min (l.committed kind + l.meter.units amount) unitsMax
  { l with load := l.load.insert kind total }

def addAll (l : Ledger) (entries : List (String × Float)) : Ledger :=
  entries.foldl (fun l e => l.add e.1 e.2) l

def commit (l : Ledger) (required : Profile) : Except Shortfall Ledger :=
  (l.check required).map fun _ => l.addAll required.entries

def commitIfFits (l : Ledger) (required : Profile) : Ledger × Bool :=
  match l.commit required with
  | .ok l' => (l', true)
  | .error _ => (l, false)

/-- Takes units off a kind, which is no longer listed once it has none. -/
def subtract (l : Ledger) (kind : String) (amount : Float) : Ledger × List LedgerAlarm :=
  let units := l.meter.units amount
  match l.load.get? kind with
  | some current =>
    let alarms :=
      if current < units then [.exceedsLoad kind (l.meter.amount current) amount] else []
    let load :=
      if current - units = 0 then l.load.erase kind else l.load.insert kind (current - units)
    ({ l with load }, alarms)
  | none => (l, if 0 < units then [.uncommitted kind amount] else [])

def subtractAll (l : Ledger) : List (String × Float) → Ledger × List LedgerAlarm
  | [] => (l, [])
  | e :: rest =>
    let (l', alarms) := l.subtract e.1 e.2
    let (l'', more) := l'.subtractAll rest
    (l'', alarms ++ more)

def release (l : Ledger) (required : Profile) : Ledger × List LedgerAlarm :=
  l.subtractAll required.entries

def profile (l : Ledger) : Profile :=
  l.load.entries.foldl (fun p e => p.insert e.1 (l.meter.amount e.2)) (l.limits.map fun _ => 0)

def limitProfile (l : Ledger) : Profile := l.limits.map l.meter.amount

/-- Nothing is listed. A kind committed with zero units is listed until it is released. -/
def isIdle (l : Ledger) : Bool := l.load.isEmpty

end Ledger

end BoundedWorker
