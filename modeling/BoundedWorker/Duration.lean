import BoundedWorker.Decimal.Layout
import BoundedWorker.Decimal.Nearest

/-!
Spans of time in whole nanoseconds, below 2^64 seconds. A number of seconds is taken to the nearest
nanosecond, and an exact half goes to the even one.
-/

namespace BoundedWorker

structure Duration where
  secs : Nat
  nanos : Nat
  secs_lt : secs < Nat.pow 2 64
  nanos_lt : nanos < 1000000000
deriving DecidableEq

namespace Duration

/-- Whole seconds among the nanoseconds carry over; none if the seconds then leave their range. -/
def ofParts? (secs nanos : Nat) : Option Duration :=
  if h : secs + nanos / 1000000000 < Nat.pow 2 64 then
    some ⟨secs + nanos / 1000000000, nanos % 1000000000, h, Nat.mod_lt _ (by decide)⟩
  else none

def zero : Duration := ⟨0, 0, by decide, by decide⟩

instance : Inhabited Duration := ⟨zero⟩

def longest : Duration := ⟨Nat.pow 2 64 - 1, 999999999, by decide, by decide⟩

def ofMillis? (ms : Nat) : Option Duration := ofParts? 0 (ms * 1000000)

def toNanos (d : Duration) : Nat := d.secs * 1000000000 + d.nanos

def isZero (d : Duration) : Bool := d.secs = 0 && d.nanos = 0

def ofSeconds? (x : Float) : Option Duration :=
  if x.isNaN || x.isInf || x < 0 then none
  else
    let (m, q) := Decimal.split x.toBits
    ofParts? 0 (Decimal.nearestEven (m * Nat.pow 2 q.toNat * 1000000000) (Nat.pow 2 (-q).toNat))

def toSeconds (d : Duration) : Float :=
  (UInt64.ofNat d.secs).toFloat + (UInt64.ofNat d.nanos).toFloat / 1000000000

end Duration

end BoundedWorker
