import BoundedWorker.Decimal.Nearest

/-!
Reading a number that stands alone in a text: an optional sign, then digits with an optional point
and exponent, or one of the words for infinity and for no number. The result is the nearest binary
value.
-/

namespace BoundedWorker.Decimal

def digitOf (c : Char) : Nat := c.toNat - 48

def digitsValue (cs : List Char) : Nat := cs.foldl (fun n c => 10 * n + digitOf c) 0

def negateIf (negative : Bool) (x : Float) : Float := if negative then -x else x

def takeSign : List Char → Bool × List Char
  | '-' :: cs => (true, cs)
  | '+' :: cs => (false, cs)
  | cs => (false, cs)

inductive FloatFault where
  | empty
  | malformed
deriving DecidableEq, Repr

def FloatFault.message : FloatFault → String
  | .empty => "cannot parse float from empty string"
  | .malformed => "invalid float literal"

def readExponent : List Char → Option Int
  | [] => some 0
  | c :: cs =>
    if c = 'e' ∨ c = 'E' then
      let (negative, ds) := takeSign cs
      if ds.isEmpty || !ds.all Char.isDigit then none
      else some (if negative then -(digitsValue ds : Int) else digitsValue ds)
    else none

def readUnsigned (cs : List Char) : Option Float :=
  let whole := cs.takeWhile Char.isDigit
  let afterWhole := cs.dropWhile Char.isDigit
  let (fraction, rest) := match afterWhole with
    | '.' :: r => (r.takeWhile Char.isDigit, r.dropWhile Char.isDigit)
    | r => ([], r)
  if whole.isEmpty && fraction.isEmpty then none
  else (readExponent rest).map fun e =>
    nearest (digitsValue (whole ++ fraction)) (e - fraction.length)

def lower (c : Char) : Char := c.toLower

def readWord (cs : List Char) : Option Float :=
  match String.ofList (cs.map lower) with
  | "inf" => some (1 / 0)
  | "infinity" => some (1 / 0)
  | "nan" => some (0 / 0)
  | _ => none

def readFloat (s : String) : Except FloatFault Float :=
  match s.toList with
  | [] => .error .empty
  | cs =>
    let (negative, body) := takeSign cs
    match readUnsigned body with
    | some x => .ok (negateIf negative x)
    | none =>
      match readWord body with
      | some x => .ok (negateIf negative x)
      | none => .error .malformed

inductive NaturalFault where
  | empty
  | malformed
  | tooLarge
deriving DecidableEq, Repr

def NaturalFault.message : NaturalFault → String
  | .empty => "cannot parse integer from empty string"
  | .malformed => "invalid digit found in string"
  | .tooLarge => "number too large to fit in target type"

/-- The first fault from the left counts: a bad character after the number has become too large is
not looked at. -/
def readDigits (bound : Nat) (n : Nat) : List Char → Except NaturalFault Nat
  | [] => .ok n
  | c :: cs =>
    if !c.isDigit then .error .malformed
    else if bound ≤ 10 * n + digitOf c then .error .tooLarge
    else readDigits bound (10 * n + digitOf c) cs

def readNatural (bound : Nat) (s : String) : Except NaturalFault Nat :=
  match s.toList with
  | [] => .error .empty
  | ['+'] => .error .malformed
  | '+' :: cs => readDigits bound 0 cs
  | cs => readDigits bound 0 cs

end BoundedWorker.Decimal
