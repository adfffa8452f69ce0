/-!
The shortest decimal that reads back as a given binary number.

A finite binary64 value is m * 2^q, and the reals that round to it form an interval whose ends are
halfway to its neighbours and belong to it when m is even. Among the decimals in that interval we
take one with the fewest digits, and of those the nearest to the value. All comparisons are between
natural numbers.
-/

namespace BoundedWorker.Decimal

inductive Tie where
  | up
  | even
deriving DecidableEq, Repr

structure Interval where
  lo : Nat
  mid : Nat
  hi : Nat
  den : Nat
  closed : Bool
deriving DecidableEq, Repr

def split (bits : UInt64) : Nat × Int :=
  let e := ((bits >>> 52) &&& 0x7FF).toNat
  let f := (bits &&& 0xFFFFFFFFFFFFF).toNat
  if e = 0 then (f, -1074) else (Nat.pow 2 52 + f, (e : Int) - 1075)

def gapBelowIsHalf (bits : UInt64) : Bool :=
  (bits &&& 0xFFFFFFFFFFFFF) == 0 && 1 < ((bits >>> 52) &&& 0x7FF).toNat

/-- A quarter of the gap above is the unit, so that all three points are whole. -/
def interval (bits : UInt64) : Interval :=
  let (m, q) := split bits
  let up := Nat.pow 2 (q - 2).toNat
  { lo := (4 * m - if gapBelowIsHalf bits then 1 else 2) * up
    mid := 4 * m * up
    hi := (4 * m + 2) * up
    den := Nat.pow 2 (2 - q).toNat
    closed := m % 2 = 0 }

def Interval.holds (i : Interval) (up point : Nat) : Bool :=
  (i.lo * up < point && point < i.hi * up) ||
    (i.closed && (point == i.lo * up || point == i.hi * up))

/-- The multiple of `10 ^ e` that is nearest to the value, if one reads back as it. -/
def Interval.onGrid (i : Interval) (tie : Tie) (e : Int) : Option Nat :=
  let up := Nat.pow 10 (-e).toNat
  let step := i.den * Nat.pow 10 e.toNat
  let below := i.mid * up / step
  let twice := 2 * (i.mid * up)
  let centre := (2 * below + 1) * step
  let first := if twice < centre then below
    else if centre < twice then below + 1
    else match tie with
      | .up => below + 1
      | .even => if below % 2 = 0 then below else below + 1
  let second := if first = below then below + 1 else below
  if i.holds up (first * step) then some first
  else if i.holds up (second * step) then some second
  else none

def Interval.scale (i : Interval) : Int :=
  ((i.mid * Nat.pow 10 400 / i.den).repr.length : Int) - 400

def Interval.search (i : Interval) (tie : Tie) (k : Int) (n : Nat) : Nat → Nat × Int
  | 0 => ((i.onGrid tie (k - n)).getD 0, k - n)
  | more + 1 =>
    match i.onGrid tie (k - n) with
    | some d => (d, k - n)
    | none => i.search tie k (n + 1) more

def stripZeros : Nat → Nat × Int → Nat × Int
  | 0, d => d
  | n + 1, (d, e) => if d ≠ 0 ∧ d % 10 = 0 then stripZeros n (d / 10, e + 1) else (d, e)

def shortest (tie : Tie) (x : Float) : Nat × Int :=
  let i := interval x.toBits
  stripZeros 20 (i.search tie i.scale 1 17)

end BoundedWorker.Decimal
