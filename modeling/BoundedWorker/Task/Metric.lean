import BoundedWorker.Json.Printer
import BoundedWorker.Json.Typed

/-!
Metrics: named numbers and texts that a task produces.
-/

namespace BoundedWorker

inductive Metric where
  | number (x : Float)
  | text (s : String)

abbrev Metrics := Table Metric

namespace Metric

def display : Metric → String
  | number x => Decimal.Layout.plain.write x
  | text s => s

def diagnosis : Metric → String
  | number x => s!"Number({Decimal.Layout.literal.write x})"
  | text s => s!"Text({quoted s})"

def text? : Metric → Option String
  | number _ => none
  | text s => some s

def toJson : Metric → Json
  | number x => Json.ofFloat x
  | text s => .string s

/-- A number or a string. The value is read to its end before its type is looked at. -/
def read (depth : Nat) (n : Node) : ReadResult Metric := do
  match ← n.readJson depth with
  | .number x => return number x.toFloat
  | .string s => return text s
  | _ => .error (.noVariant "MetricValue")

end Metric

namespace Metrics

def toJson (m : Metrics) : Json := .object (m.entries.map fun e => (e.1, e.2.toJson))

def diagnosis (m : Metrics) : String :=
  let shown := m.entries.map fun e => s!"{quoted e.1}: {e.2.diagnosis}"
  "\x7b" ++ ", ".intercalate shown ++ "\x7d"

end Metrics

end BoundedWorker
