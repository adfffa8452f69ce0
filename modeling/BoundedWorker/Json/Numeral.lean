import BoundedWorker.Json.Basic
import BoundedWorker.Decimal.Reading

/-!
What a JSON numeral stands for.

Whole numerals that fit 64 bits are exact. Every other numeral becomes a binary number in two
rounded steps: its leading digits as far as 64 bits hold them, then one multiplication or division
by a power of ten, or several where the power is below the smallest one that is held. Short
numerals come out exactly rounded; long ones may be off in the last place. A numeral beyond the
range stands for nothing.
-/

namespace BoundedWorker

inductive Numeral where
  | written (cs : List Char)
  | known (n : Number)

namespace Numeral

def wordBound : Nat := Nat.pow 2 64

def powerOfTen (n : Nat) : Float := Decimal.nearest 1 n

def scaleDown (x : Float) (e : Nat) : Nat → Float
  | 0 => x
  | steps + 1 =>
    if e ≤ 308 then x / powerOfTen e
    else if x == 0 then x
    else scaleDown (x / powerOfTen 308) (e - 308) steps

def scale (m : Nat) (e : Int) : Option Float :=
  let x := (UInt64.ofNat m).toFloat
  if e < 0 then some (scaleDown x e.natAbs (e.natAbs / 308 + 1))
  else if e ≤ 308 then
    let y := x * powerOfTen e.natAbs
    if y.isInf then none else some y
  else if x == 0 then some x else none

/-- Takes digits in as long as the number stays below 2^64; the rest of them is left over. -/
def takeWord (m : Nat) : List Char → Nat × List Char
  | [] => (m, [])
  | c :: cs =>
    if wordBound ≤ 10 * m + Decimal.digitOf c then (m, c :: cs)
    else takeWord (10 * m + Decimal.digitOf c) cs

def exponentBound : Nat := Nat.pow 2 31

def exponentValue (n : Nat) : List Char → Option Nat
  | [] => some n
  | c :: cs =>
    if exponentBound ≤ 10 * n + Decimal.digitOf c then none
    else exponentValue (10 * n + Decimal.digitOf c) cs

def withExponent (m : Nat) (e : Int) : List Char → Option Float
  | [] => scale m e
  | _ :: cs =>
    let (negative, digits) := Decimal.takeSign cs
    match exponentValue 0 digits with
    | some n => scale m (if negative then e - n else e + n)
    | none => if m ≠ 0 ∧ negative = false then none else some 0

def withFraction (m : Nat) (e : Int) : List Char → Option Float
  | '.' :: cs =>
    let digits := cs.takeWhile Char.isDigit
    let (m', left) := takeWord m digits
    withExponent m' (e - ((digits.length - left.length : Nat) : Int)) (cs.dropWhile Char.isDigit)
  | cs => withExponent m e cs

def binary? (x : Float) : Option Number :=
  if h : x.isFinite = true then some (.binary x h) else none

def ofChars? (cs : List Char) : Option Number :=
  let negative := cs.head? = some '-'
  let body := if negative then cs.drop 1 else cs
  let digits := body.takeWhile Char.isDigit
  let rest := body.dropWhile Char.isDigit
  let (m, left) := takeWord 0 digits
  if left.isEmpty ∧ rest.isEmpty ∧ negative = false then some (.natural m)
  else if left.isEmpty ∧ rest.isEmpty ∧ 0 < m ∧ m ≤ Nat.pow 2 63 then
    some (.negative (m - 1))
  else (withFraction m left.length rest).bind fun x => binary? (Decimal.negateIf negative x)

def number? : Numeral → Option Number
  | written cs => ofChars? cs
  | known n => some n

end Numeral

end BoundedWorker
