import BoundedWorker.Json.Node
import BoundedWorker.Text.Quoted
import BoundedWorker.Decimal.Layout

/-!
Why a JSON text does not stand for a value of some type. Faults of the grammar are all alike; the
others say what was found and what was expected.
-/

namespace BoundedWorker

inductive ReadFault where
  | malformed
  | wrongType (found : Shape) (expected : String)
  | outOfRange (found : Int) (expected : String)
  | wrongLength (length : Nat) (expected : String)
  | missingField (name : String)
  | duplicateField (name : String)
  | unknownVariant (name : String) (variants : List String)
  | unknownField (name : String) (fields : List String)
  | noVariant (type : String)
  | durationTooLong

abbrev ReadResult (α : Type) := Except ReadFault α

def ticked (s : String) : String := s!"`{s}`"

def alternatives (names : List String) : String :=
  match names with
  | [] => "there are none"
  | [a] => ticked a
  | [a, b] => s!"{ticked a} or {ticked b}"
  | names => "one of " ++ ", ".intercalate (names.map ticked)

def Number.describe : Number → String
  | .natural n => s!"integer `{n}`"
  | .negative n => s!"integer `-{n + 1}`"
  | .binary x _ => s!"floating point {ticked (Decimal.Layout.json.write x)}"

def Shape.describe : Shape → String
  | .null => "null"
  | .bool b => s!"boolean `{b}`"
  | .number n => (n.number?.map Number.describe).getD "number"
  | .string s => "string " ++ quoted (s.getD "")
  | .sequence => "sequence"
  | .map => "map"
  | .broken => "nothing"

def ReadFault.message : ReadFault → String
  | malformed => "syntax error"
  | wrongType found expected => s!"invalid type: {found.describe}, expected {expected}"
  | outOfRange found expected => s!"invalid value: integer `{found}`, expected {expected}"
  | wrongLength length expected => s!"invalid length {length}, expected {expected}"
  | missingField name => s!"missing field `{name}`"
  | duplicateField name => s!"duplicate field `{name}`"
  | unknownVariant name variants =>
    s!"unknown variant `{name}`, expected {alternatives variants}"
  | unknownField name fields => s!"unknown field `{name}`, expected {alternatives fields}"
  | noVariant type => s!"data did not match any variant of untagged enum {type}"
  | durationTooLong => "overflow deserializing Duration"

def Shape.mismatch (s : Shape) (expected : String) : ReadFault :=
  match s with
  | .broken => .malformed
  | .string none => .malformed
  | .number n => if n.number?.isNone then .malformed else .wrongType s expected
  | s => .wrongType s expected

def Node.mismatch (n : Node) (expected : String) : ReadFault := n.shape.mismatch expected

end BoundedWorker
