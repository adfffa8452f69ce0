import BoundedWorker.Decimal.Shortest

/-!
How numbers are written. The digits are always the shortest ones; a layout decides where they are
written out in full, what follows a whole number, and how an exponent looks.

Three layouts occur: `plain` in messages and answers, `json` in JSON text, and `literal` where a
value is shown for diagnosis.
-/

namespace BoundedWorker.Decimal

structure Layout where
  /-- Which powers of ten of the leading digit are written without an exponent. -/
  positional : Int → Bool
  wholeEnd : String
  plus : Bool
  tie : Tie
  nan : String
  infinite : String
  minusInfinite : String

def Layout.plain : Layout where
  positional _ := true
  wholeEnd := ""
  plus := false
  tie := .up
  nan := "NaN"
  infinite := "inf"
  minusInfinite := "-inf"

def Layout.json : Layout where
  positional e := -5 ≤ e && e < 16
  wholeEnd := ".0"
  plus := true
  tie := .even
  nan := "null"
  infinite := "null"
  minusInfinite := "null"

def Layout.literal : Layout where
  positional e := -4 ≤ e && e < 16
  wholeEnd := ".0"
  plus := false
  tie := .up
  nan := "NaN"
  infinite := "inf"
  minusInfinite := "-inf"

def zeros (n : Nat) : String := String.ofList (List.replicate n '0')

/-- The digits with the point after the first `k` of them; `k` may lie outside of them. -/
def positionalText (wholeEnd : String) (digits : List Char) (k : Int) : String :=
  if k ≤ 0 then "0." ++ zeros (-k).toNat ++ String.ofList digits
  else if digits.length ≤ k.toNat then
    String.ofList digits ++ zeros (k.toNat - digits.length) ++ wholeEnd
  else String.ofList (digits.take k.toNat) ++ "." ++ String.ofList (digits.drop k.toNat)

def exponentText (plus : Bool) (digits : List Char) (e : Int) : String :=
  let point := if digits.length ≤ 1 then "" else "."
  let sign := if e < 0 then "-" else if plus then "+" else ""
  String.ofList (digits.take 1) ++ point ++ String.ofList (digits.drop 1) ++ "e" ++ sign
    ++ toString e.natAbs

def Layout.magnitude (l : Layout) (x : Float) : String :=
  if x == 0 then "0" ++ l.wholeEnd
  else
    let (d, e) := shortest l.tie x
    let digits := d.repr.toList
    let k := e + digits.length
    if l.positional (k - 1) then positionalText l.wholeEnd digits k
    else exponentText l.plus digits (k - 1)

def isNegative (x : Float) : Bool := x.toBits >>> 63 == 1

def Layout.write (l : Layout) (x : Float) : String :=
  if x.isNaN then l.nan
  else if x.isInf then (if isNegative x then l.minusInfinite else l.infinite)
  else (if isNegative x then "-" else "") ++ l.magnitude x

end BoundedWorker.Decimal
