/-!
Rounding to the nearest. A quotient of natural numbers goes to the nearest natural number, and a
decimal goes to the nearest binary64 value by one such quotient, whose unit is the gap between the
values around it. An exact half goes to the even number both times.
-/

namespace BoundedWorker.Decimal

def nearestEven (num den : Nat) : Nat :=
  let q := num / den
  let r := 2 * (num % den)
  if r < den then q else if den < r then q + 1 else if q % 2 = 0 then q else q + 1

def leastPower : Int := -1074

def infinityBits : Nat := 0x7FF * Nat.pow 2 52

/-- The power of two of the last of 53 significant bits of `num / den`, or of the last bit that
there is. -/
def lastPower (num den : Nat) : Int :=
  let k := (num.log2 : Int) - den.log2 - 52
  let isShort := num * Nat.pow 2 (-k).toNat < den * Nat.pow 2 (52 + k.toNat)
  max leastPower (if isShort then k - 1 else k)

/-- The significand may be one bit too long after rounding, and then carries into the exponent. -/
def bitsOf (significand : Nat) (q : Int) : Nat :=
  if significand < Nat.pow 2 52 then significand
  else (q - leastPower + 1).toNat * Nat.pow 2 52 + (significand - Nat.pow 2 52)

def nearestBits (num den : Nat) : Nat :=
  let q := lastPower num den
  min (bitsOf (nearestEven (num * Nat.pow 2 (-q).toNat) (den * Nat.pow 2 q.toNat)) q) infinityBits

def nearest (m : Nat) (e : Int) : Float :=
  if m = 0 then 0
  else
    let magnitude := (m.repr.length : Int) + e
    if 400 < magnitude then 1 / 0
    else if magnitude < -400 then 0
    else Float.ofBits (UInt64.ofNat (nearestBits (m * Nat.pow 10 e.toNat) (Nat.pow 10 (-e).toNat)))

end BoundedWorker.Decimal
