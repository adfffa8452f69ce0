import BoundedWorker.Json.Fault
import BoundedWorker.Json.Reader

/-!
Taking a tree apart as a value of a type. Members and items are looked at in the order of the
text, and the first fault counts.
-/

namespace BoundedWorker

/-- Where a tree comes from: read from text right now, held as a value, or set aside while the rest
of its text was read. -/
inductive Origin where
  | text
  | value
  | aside
deriving DecidableEq

def Origin.surplus (o : Origin) (length wanted : Nat) : ReadFault :=
  match o with
  | .text => .malformed
  | .value => .wrongLength length "fewer elements in array"
  | .aside => .wrongLength length
      (if wanted = 1 then "1 element in sequence" else s!"{wanted} elements in sequence")

def nestingLimit : Nat := 127

namespace Node

def readString : Node → ReadResult String
  | string (some s) => .ok s
  | n => .error (n.mismatch "a string")

def readBool : Node → ReadResult Bool
  | bool b => .ok b
  | n => .error (n.mismatch "a boolean")

def readFloat (n : Node) : ReadResult Float :=
  match n with
  | number m =>
    match m.number? with
    | some x => .ok x.toFloat
    | none => .error .malformed
  | n => .error (n.mismatch "f64")

def readNatural (expected : String) (bound : Nat) (n : Node) : ReadResult Nat :=
  match n with
  | number m =>
    match m.number? with
    | some (.natural k) =>
      if k < bound then .ok k else .error (.outOfRange k expected)
    | some (.negative k) => .error (.outOfRange (Int.negSucc k) expected)
    | _ => .error (n.mismatch expected)
  | n => .error (n.mismatch expected)

def readUInt64 (expected : String) (n : Node) : ReadResult UInt64 :=
  (readNatural expected (Nat.pow 2 64) n).map UInt64.ofNat

def readInt32 (n : Node) : ReadResult Int32 :=
  match n with
  | number m =>
    match m.number? with
    | some (.natural k) =>
      if k < Nat.pow 2 31 then .ok (Int32.ofNat k) else .error (.outOfRange k "i32")
    | some (.negative k) =>
      if k < Nat.pow 2 31 then .ok (Int32.ofInt (Int.negSucc k))
      else .error (.outOfRange (Int.negSucc k) "i32")
    | _ => .error (n.mismatch "i32")
  | n => .error (n.mismatch "i32")

/-- A natural number below 2^128. In text it is bare digits and nothing else; among values read
before there are none above 64 bits. -/
def readUInt128 (o : Origin) (n : Node) : ReadResult (Fin (Nat.pow 2 128)) :=
  match n with
  | number (.written cs) =>
    let v := Decimal.digitsValue cs
    if h : cs.all Char.isDigit = true ∧ v < Nat.pow 2 128 then .ok ⟨v, h.2⟩ else .error .malformed
  | number (.known (.natural k)) =>
    if h : k < Nat.pow 2 128 then .ok ⟨k, h⟩ else .error (.outOfRange k "u128")
  | number (.known (.negative k)) => .error (.outOfRange (Int.negSucc k) "u128")
  | n => .error (if o = .text then .malformed else n.mismatch "u128")

def readOption {α : Type} (read : Node → ReadResult α) : Node → ReadResult (Option α)
  | null => .ok none
  | n => (read n).map some

def pass (n : Node) : ReadResult Unit := if n.whole then .ok () else .error .malformed

def finish (ended : Bool) : ReadResult Unit := if ended then .ok () else .error .malformed

def readItems {α : Type} (read : Node → ReadResult α) (ended : Bool) :
    List Node → ReadResult (List α)
  | [] => (finish ended).map fun _ => []
  | n :: rest => do
    let a ← read n
    let more ← readItems read ended rest
    return a :: more

def readList {α : Type} (read : Node → ReadResult α) : Node → ReadResult (List α)
  | array items ended => readItems read ended items
  | n => .error (n.mismatch "a sequence")

def nameOf : Option String → ReadResult String
  | some s => .ok s
  | none => .error .malformed

def readEntries {α : Type} (read : Node → ReadResult α) (ended : Bool) (t : Table α) :
    List (Option String × Node) → ReadResult (Table α)
  | [] => (finish ended).map fun _ => t
  | (k, n) :: rest => do
    let name ← nameOf k
    let a ← read n
    readEntries read ended (t.insert name a) rest

def readTable {α : Type} (read : Node → ReadResult α) : Node → ReadResult (Table α)
  | object members ended => readEntries read ended .empty members
  | n => .error (n.mismatch "a map")

mutual

/-- The tree itself. In text at most `depth` containers may be open at a time; what was read before
may be nested to any depth. -/
def readTree (o : Origin) (depth : Nat) : Node → ReadResult Json
  | null => .ok .null
  | bool b => .ok (.bool b)
  | number n =>
    match n.number? with
    | some x => .ok (.number x)
    | none => .error .malformed
  | string (some s) => .ok (.string s)
  | string none => .error .malformed
  | array items ended =>
    if o = .text ∧ depth = 0 then .error .malformed
    else (readTreeItems o (depth - 1) ended items).map .array
  | object members ended =>
    if o = .text ∧ depth = 0 then .error .malformed
    else (readTreeMembers o (depth - 1) ended members).map .object
  | broken => .error .malformed

def readTreeItems (o : Origin) (depth : Nat) (ended : Bool) : List Node → ReadResult (List Json)
  | [] => (finish ended).map fun _ => []
  | n :: rest => do
    let j ← readTree o depth n
    let more ← readTreeItems o depth ended rest
    return j :: more

def readTreeMembers (o : Origin) (depth : Nat) (ended : Bool) :
    List (Option String × Node) → ReadResult (List (String × Json))
  | [] => (finish ended).map fun _ => []
  | (k, n) :: rest => do
    let name ← nameOf k
    let j ← readTree o depth n
    let more ← readTreeMembers o depth ended rest
    return (name, j) :: more

end

def readJson (depth : Nat) (n : Node) : ReadResult Json := n.readTree .text depth

def readValue (o : Origin) (depth : Nat) (n : Node) : ReadResult Value :=
  (n.readTree o depth).map Value.ofJson

/-- One of a list of names: as a string, or as the only name of an object whose value is null. -/
def readName {α : Type} (names : List (String × α)) (n : Node) : ReadResult α :=
  let find (s : String) : ReadResult α :=
    match Table.lookup s names with
    | some a => .ok a
    | none => .error (.unknownVariant s (names.map (·.1)))
  match n with
  | string (some s) => find s
  | object ((k, m) :: rest) ended => do
    let a ← find (← nameOf k)
    match m with
    | null => if rest.isEmpty && ended then .ok a else .error .malformed
    | m => .error (m.mismatch "unit")
  | _ => .error .malformed

end Node

structure Field (σ : Type) where
  name : String
  required : Bool
  read : σ → Node → ReadResult σ

/-- A record type as JSON: an object with these fields, others being passed over, or an array of
them in this order. -/
structure Record (σ : Type) where
  title : String
  fields : List (Field σ)

namespace Record

variable {σ : Type}

def field? (r : Record σ) (name : String) : Option (Field σ) :=
  r.fields.find? fun f => f.name = name

def missing? (r : Record σ) (seen : List String) : Option String :=
  (r.fields.find? fun f => f.required && !seen.contains f.name).map (·.name)

def readMembers (r : Record σ) (ended : Bool) (seen : List String) (s : σ) :
    List (Option String × Node) → ReadResult σ
  | [] => do
    Node.finish ended
    match r.missing? seen with
    | some name => .error (.missingField name)
    | none => .ok s
  | (k, n) :: rest => do
    let name ← Node.nameOf k
    match r.field? name with
    | some f =>
      if seen.contains name then .error (.duplicateField name)
      else
        let s' ← f.read s n
        r.readMembers ended (name :: seen) s' rest
    | none =>
      n.pass
      r.readMembers ended seen s rest

def readItems (r : Record σ) (o : Origin) (ended : Bool) (count : Nat) (s : σ) :
    List (Field σ) → List Node → ReadResult σ
  | [], [] => (Node.finish ended).map fun _ => s
  | [], extra@(_ :: _) => .error (o.surplus (count + extra.length) count)
  | f :: fields, [] => do
    Node.finish ended
    if f.required then
      .error (.wrongLength count s!"{r.title} with {r.fields.length} elements")
    else r.readItems o ended (count + 1) s fields []
  | f :: fields, n :: rest => do
    let s' ← f.read s n
    r.readItems o ended (count + 1) s' fields rest

def read (r : Record σ) (o : Origin) (start : σ) : Node → ReadResult σ
  | .object members ended => r.readMembers ended [] start members
  | .array items ended => r.readItems o ended 0 start r.fields items
  | n => .error (n.mismatch r.title)

end Record

def readText {α : Type} (read : Node → ReadResult α) (text : String) : ReadResult α := do
  let d := Document.ofText text
  let a ← read d.root
  if d.clean then .ok a else .error .malformed

end BoundedWorker
