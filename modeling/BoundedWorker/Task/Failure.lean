import BoundedWorker.Duration

/-!
Why an admitted task did not succeed.
-/

namespace BoundedWorker

inductive Failure where
  | timeout (limit : Duration)
  | cancelled
  | execution (reason : String)

def Failure.message : Failure → String
  | timeout limit => s!"timeout after {Decimal.Layout.plain.write limit.toSeconds}s"
  | cancelled => "cancelled"
  | execution reason => reason

inductive Panic where
  | text (s : String)
  | noText

def Panic.message : Panic → String
  | text s => s!"task body panicked: {s}"
  | noText => "task body panicked"

end BoundedWorker
