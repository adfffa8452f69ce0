import BoundedWorker.Decimal.Shortest

/-!
How amounts are counted. The ledger adds and subtracts whole units, so that whatever is taken is
given back exactly; a meter says how many units an amount is, and what amount a number of units is.
-/

namespace BoundedWorker

def unitsMax : Nat := Nat.pow 2 64 - 1

structure Meter where
  units : Float → Nat
  amount : Nat → Float
  units_le : ∀ x, units x ≤ unitsMax

def nearestNatural (m : Nat) (q : Int) : Nat :=
  if 0 ≤ q then m * Nat.pow 2 q.toNat
  else (2 * m + Nat.pow 2 (-q).toNat) / Nat.pow 2 ((-q).toNat + 1)

/-- Millionths of an amount. Negative amounts and what is no number count as nothing; amounts
beyond the range count as the largest number of units. -/
def millionths (x : Float) : Nat :=
  if 0 < x then
    let scaled := x * 1000000
    if scaled.isInf then unitsMax
    else
      let (m, q) := Decimal.split scaled.toBits
      min (nearestNatural m q) unitsMax
  else 0

theorem millionths_le (x : Float) : millionths x ≤ unitsMax := by
  unfold millionths
  split
  · dsimp only
    split
    · exact Nat.le_refl _
    · exact Nat.min_le_right _ _
  · exact Nat.zero_le _

def Meter.millionths : Meter where
  units := BoundedWorker.millionths
  amount n := (UInt64.ofNat n).toFloat / 1000000
  units_le := millionths_le

end BoundedWorker
