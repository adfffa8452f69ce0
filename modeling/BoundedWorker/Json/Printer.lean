import BoundedWorker.Json.Basic
import BoundedWorker.Decimal.Layout

/-!
JSON text: no spaces, members in the order of the tree, short escapes where there are any, and
every character from the space on as it is.
-/

namespace BoundedWorker

def hexDigit (n : Nat) : Char := Char.ofNat (if n < 10 then 48 + n else 87 + n)

def escapedChar (c : Char) : List Char :=
  match c with
  | '"' => ['\\', '"']
  | '\\' => ['\\', '\\']
  | '\x08' => ['\\', 'b']
  | '\x0c' => ['\\', 'f']
  | '\n' => ['\\', 'n']
  | '\r' => ['\\', 'r']
  | '\t' => ['\\', 't']
  | c =>
    if c.toNat < 0x20 then
      ['\\', 'u', '0', '0', hexDigit (c.toNat / 16), hexDigit (c.toNat % 16)]
    else [c]

def escapedText (s : String) : List Char := '"' :: s.toList.flatMap escapedChar ++ ['"']

def Number.text : Number → List Char
  | .natural n => n.repr.toList
  | .negative n => '-' :: (n + 1).repr.toList
  | .binary x _ => (Decimal.Layout.json.write x).toList

namespace Json

mutual

def chars : Json → List Char
  | null => ['n', 'u', 'l', 'l']
  | bool true => ['t', 'r', 'u', 'e']
  | bool false => ['f', 'a', 'l', 's', 'e']
  | number n => n.text
  | string s => escapedText s
  | array [] => ['[', ']']
  | array (j :: rest) => '[' :: j.chars ++ itemChars rest
  | object [] => ['\x7b', '\x7d']
  | object ((name, j) :: rest) =>
    '\x7b' :: escapedText name ++ ':' :: j.chars ++ memberChars rest

def itemChars : List Json → List Char
  | [] => [']']
  | j :: rest => ',' :: j.chars ++ itemChars rest

def memberChars : List (String × Json) → List Char
  | [] => ['\x7d']
  | (name, j) :: rest => ',' :: escapedText name ++ ':' :: j.chars ++ memberChars rest

end

def text (j : Json) : String := String.ofList j.chars

end Json

end BoundedWorker
