import BoundedWorker.Json.Node

/-!
Reading JSON text one character at a time. The reader keeps the containers that are open, from the
inside out, and a mode that says what may come next. After the first character that fits nowhere
it stands still.
-/

namespace BoundedWorker

inductive Frame where
  | array (done : List Node)
  | object (done : List (Option String × Node)) (name : Option (Option String))

inductive NumeralPlace where
  | minus
  | zero
  | whole
  | point
  | fraction
  | mark
  | markSign
  | power
deriving DecidableEq

def NumeralPlace.final : NumeralPlace → Bool
  | .zero | .whole | .fraction | .power => true
  | _ => false

def NumeralPlace.next (p : NumeralPlace) (c : Char) : Option NumeralPlace :=
  match p with
  | .minus => if c = '0' then some .zero else if c.isDigit then some .whole else none
  | .zero => if c = '.' then some .point else if c = 'e' ∨ c = 'E' then some .mark else none
  | .whole =>
    if c.isDigit then some .whole
    else if c = '.' then some .point else if c = 'e' ∨ c = 'E' then some .mark else none
  | .point => if c.isDigit then some .fraction else none
  | .fraction =>
    if c.isDigit then some .fraction else if c = 'e' ∨ c = 'E' then some .mark else none
  | .mark =>
    if c = '+' ∨ c = '-' then some .markSign else if c.isDigit then some .power else none
  | .markSign => if c.isDigit then some .power else none
  | .power => if c.isDigit then some .power else none

inductive TextPlace where
  | plain
  | escape
  | hex (value left : Nat)

/-- A string that is being read: its characters in reverse order, the first half of a pair of
escapes that waits for the second one, and whether all escapes so far stand for characters. -/
structure TextState where
  place : TextPlace
  done : List Char
  half : Option Nat
  sound : Bool

def TextState.start : TextState := ⟨.plain, [], none, true⟩

def TextState.put (t : TextState) (c : Char) : TextState :=
  ⟨.plain, c :: t.done, none, t.sound && t.half.isNone⟩

/-- An escape of four hexadecimal digits has ended. Values from D800 on are halves of a pair, first
halves below DC00 and second halves below E000. -/
def TextState.putUnit (t : TextState) (v : Nat) : TextState :=
  if 0xD800 ≤ v ∧ v < 0xDC00 then ⟨.plain, t.done, some v, t.sound && t.half.isNone⟩
  else if 0xDC00 ≤ v ∧ v < 0xE000 then
    match t.half with
    | some h => ⟨.plain, Char.ofNat (0x10000 + (h - 0xD800) * 0x400 + (v - 0xDC00)) :: t.done,
        none, t.sound⟩
    | none => ⟨.plain, t.done, none, false⟩
  else t.put (Char.ofNat v)

def hexValue? (c : Char) : Option Nat :=
  if c.isDigit then some (c.toNat - 48)
  else if 'a' ≤ c ∧ c ≤ 'f' then some (c.toNat - 87)
  else if 'A' ≤ c ∧ c ≤ 'F' then some (c.toNat - 55)
  else none

def shortEscape? : Char → Option Char
  | '"' => some '"'
  | '\\' => some '\\'
  | '/' => some '/'
  | 'b' => some '\x08'
  | 'f' => some '\x0c'
  | 'n' => some '\n'
  | 'r' => some '\r'
  | 't' => some '\t'
  | _ => none

def TextState.next (t : TextState) (c : Char) : Option TextState :=
  match t.place with
  | .plain =>
    if c = '\\' then some { t with place := .escape }
    else if c.toNat < 0x20 then none
    else some (t.put c)
  | .escape =>
    if c = 'u' then some { t with place := .hex 0 4 } else (shortEscape? c).map t.put
  | .hex value left =>
    (hexValue? c).map fun d =>
      if left ≤ 1 then t.putUnit (16 * value + d)
      else { t with place := .hex (16 * value + d) (left - 1) }

def TextState.result (t : TextState) : Option String :=
  if t.sound && t.half.isNone then some (String.ofList t.done.reverse) else none

inductive Mode where
  /-- A value comes, or a name if the innermost container is an object without one; if `first`,
  the container may also end. -/
  | value (first : Bool)
  | colon
  | after
  | word (left : List Char) (n : Node)
  | numeral (place : NumeralPlace) (done : List Char)
  | text (t : TextState)
  | finished (n : Node)
  | trailing (n : Node)
  | failed

structure Reader where
  frames : List Frame
  mode : Mode

namespace Reader

def start : Reader := ⟨[], .value false⟩

def complete (frames : List Frame) (n : Node) : Reader :=
  match frames with
  | [] => ⟨[], .finished n⟩
  | .array done :: outer => ⟨.array (n :: done) :: outer, .after⟩
  | .object done (some name) :: outer => ⟨.object ((name, n) :: done) none :: outer, .after⟩
  | .object done none :: outer =>
    match n with
    | .string s => ⟨.object done (some s) :: outer, .colon⟩
    | _ => ⟨frames, .failed⟩

def isSpace (c : Char) : Bool := c = ' ' || c = '\t' || c = '\n' || c = '\r'

def wantsName : List Frame → Bool
  | .object _ none :: _ => true
  | _ => false

def close (frames : List Frame) (c : Char) : Reader :=
  match frames with
  | .array done :: outer =>
    if c = ']' then complete outer (.array done.reverse true) else ⟨frames, .failed⟩
  | .object done none :: outer =>
    if c = '\x7d' then complete outer (.object done.reverse true) else ⟨frames, .failed⟩
  | _ => ⟨frames, .failed⟩

def begin (frames : List Frame) (first : Bool) (c : Char) : Reader :=
  if isSpace c then ⟨frames, .value first⟩
  else if c = '"' then ⟨frames, .text .start⟩
  else if wantsName frames then if first then close frames c else ⟨frames, .failed⟩
  else if c = '[' then ⟨.array [] :: frames, .value true⟩
  else if c = '\x7b' then ⟨.object [] none :: frames, .value true⟩
  else if c = 'n' then ⟨frames, .word ['u', 'l', 'l'] .null⟩
  else if c = 't' then ⟨frames, .word ['r', 'u', 'e'] (.bool true)⟩
  else if c = 'f' then ⟨frames, .word ['a', 'l', 's', 'e'] (.bool false)⟩
  else if c = '-' then ⟨frames, .numeral .minus [c]⟩
  else if c = '0' then ⟨frames, .numeral .zero [c]⟩
  else if c.isDigit then ⟨frames, .numeral .whole [c]⟩
  else if first then close frames c
  else ⟨frames, .failed⟩

def follow (r : Reader) (c : Char) : Reader :=
  match r.mode with
  | .after =>
    if isSpace c then r
    else if c = ',' then ⟨r.frames, .value false⟩
    else close r.frames c
  | .colon =>
    if isSpace c then r else if c = ':' then ⟨r.frames, .value false⟩ else ⟨r.frames, .failed⟩
  | .finished n => if isSpace c then r else ⟨r.frames, .trailing n⟩
  | _ => r

def feed (r : Reader) (c : Char) : Reader :=
  match r.mode with
  | .value first => begin r.frames first c
  | .word left n =>
    match left with
    | [] => ⟨r.frames, .failed⟩
    | d :: more =>
      if c ≠ d then ⟨r.frames, .failed⟩
      else if more.isEmpty then complete r.frames n
      else ⟨r.frames, .word more n⟩
  | .numeral place done =>
    match place.next c with
    | some p => ⟨r.frames, .numeral p (c :: done)⟩
    | none =>
      if !place.final || (place = .zero && c.isDigit) then ⟨r.frames, .failed⟩
      else follow (complete r.frames (.number (.written done.reverse))) c
  | .text t =>
    match t.place, c with
    | .plain, '"' => complete r.frames (.string t.result)
    | _, _ =>
      match t.next c with
      | some t' => ⟨r.frames, .text t'⟩
      | none => ⟨r.frames, .failed⟩
  | _ => r.follow c

def run (r : Reader) (cs : List Char) : Reader := cs.foldl feed r

def stop (r : Reader) : Reader :=
  match r.mode with
  | .numeral place done =>
    if place.final then complete r.frames (.number (.written done.reverse))
    else ⟨r.frames, .failed⟩
  | _ => r

/-- Closes the open containers from the inside out around what could not be read. -/
def collapse (hole : Option Node) : List Frame → Node
  | [] => hole.getD .broken
  | .array done :: outer => collapse (some (.array (hole.toList ++ done).reverse false)) outer
  | .object done name :: outer =>
    let last := match name with
      | some k => [(k, hole.getD .broken)]
      | none => []
    collapse (some (.object (last ++ done).reverse false)) outer

def document (r : Reader) : Document :=
  match r.mode with
  | .finished n => ⟨n, true⟩
  | .trailing n => ⟨n, false⟩
  | _ => ⟨collapse none r.frames, false⟩

end Reader

def Document.ofText (s : String) : Document := (Reader.start.run s.toList).stop.document

end BoundedWorker
