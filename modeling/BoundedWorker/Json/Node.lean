import BoundedWorker.Json.Numeral

/-!
JSON text as far as it has been read. Where the text breaks off or leaves the grammar, the tree
ends: containers that are still open say so, and the value that could not be read is `broken`.

Whoever takes a tree apart from left to right finds the first fault of the text where it is, be it
a fault of grammar or a value that does not fit.
-/

namespace BoundedWorker

inductive Shape where
  | null
  | bool (b : Bool)
  | number (n : Numeral)
  /-- None when the escapes of the text stand for no characters. -/
  | string (s : Option String)
  | sequence
  | map
  | broken

inductive Node where
  | null
  | bool (b : Bool)
  | number (n : Numeral)
  | string (s : Option String)
  | array (items : List Node) (ended : Bool)
  | object (members : List (Option String × Node)) (ended : Bool)
  | broken

namespace Node

instance : Inhabited Node := ⟨broken⟩

def shape : Node → Shape
  | null => .null
  | bool b => .bool b
  | number n => .number n
  | string s => .string s
  | array _ _ => .sequence
  | object _ _ => .map
  | broken => .broken

def whole : Node → Bool
  | array _ ended => ended
  | object _ ended => ended
  | broken => false
  | _ => true

mutual

def ofJson : Json → Node
  | .null => null
  | .bool b => bool b
  | .number n => number (.known n)
  | .string s => string (some s)
  | .array items => array (ofItems items) true
  | .object members => object (ofMembers members) true

def ofItems : List Json → List Node
  | [] => []
  | j :: rest => ofJson j :: ofItems rest

def ofMembers : List (String × Json) → List (Option String × Node)
  | [] => []
  | (name, j) :: rest => (some name, ofJson j) :: ofMembers rest

end

end Node

structure Document where
  root : Node
  clean : Bool

end BoundedWorker
