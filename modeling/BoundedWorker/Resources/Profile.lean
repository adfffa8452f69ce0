import BoundedWorker.Table
import BoundedWorker.Json.Typed

/-!
Resource profiles: amounts by kind, such as `cpu`. A profile serves as the limits of a worker, as
the requirement of a task, and as a load.
-/

namespace BoundedWorker

abbrev Profile := Table Float

namespace Profile

def cpu : String := "cpu"

def memory : String := "mem_gb"

def smallestLimit : Float := 1e-6

def amount (p : Profile) (kind : String) : Float := (p.get? kind).getD 0

inductive LimitFault where
  | noKinds
  | notPositive (kind : String) (amount : Float)
  | tooSmall (kind : String) (amount : Float)

def LimitFault.message : LimitFault → String
  | noKinds => "resource_limits must define at least one resource kind"
  | notPositive kind amount =>
    s!"resource limit `{kind}` must be positive, got {Decimal.Layout.plain.write amount}"
  | tooSmall kind amount =>
    s!"resource limit `{kind}` must be at least {Decimal.Layout.plain.write smallestLimit}, "
      ++ s!"got {Decimal.Layout.plain.write amount}"

def checkLimit (kind : String) (amount : Float) : Except LimitFault Unit :=
  if !amount.isFinite || amount ≤ 0 then .error (.notPositive kind amount)
  else if amount < smallestLimit then .error (.tooSmall kind amount)
  else .ok ()

/-- Limits name at least one kind, each with a finite amount that the ledger can tell from zero. -/
def checkLimits (p : Profile) : Except LimitFault Unit :=
  if p.isEmpty then .error .noKinds else p.entries.forM fun e => checkLimit e.1 e.2

structure RequirementFault where
  kind : String
  amount : Float

def RequirementFault.message (f : RequirementFault) : String :=
  s!"required resource `{f.kind}` must be a non-negative number, "
    ++ s!"got {Decimal.Layout.plain.write f.amount}"

def isRequirable (amount : Float) : Bool := amount.isFinite && !(amount < 0)

def checkRequirement (p : Profile) : Except RequirementFault Unit :=
  match p.entries.find? fun e => !isRequirable e.2 with
  | some (kind, amount) => .error ⟨kind, amount⟩
  | none => .ok ()

def toJson (p : Profile) : Json := .object (p.entries.map fun e => (e.1, Json.ofFloat e.2))

def read (n : Node) : ReadResult Profile := n.readTable Node.readFloat

end Profile

end BoundedWorker
