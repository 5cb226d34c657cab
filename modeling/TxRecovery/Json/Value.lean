/-!
# Written JSON

The values that a node writes, and their compact text. In strings only the quote, the backslash and
the control characters are escaped.
-/

namespace TxRecovery

namespace Json

inductive Value where
  | null
  | bool (b : Bool)
  | number (n : Nat)
  | string (s : String)
  | array (items : List Value)
  | object (fields : List (String × Value))

namespace Value

def escape (c : Char) : List Char :=
  if c = '"' then ['\\', '"']
  else if c = '\\' then ['\\', '\\']
  else if c = '\x08' then ['\\', 'b']
  else if c = '\x0c' then ['\\', 'f']
  else if c = '\n' then ['\\', 'n']
  else if c = '\r' then ['\\', 'r']
  else if c = '\t' then ['\\', 't']
  else if c.toNat < 0x20 then
    ['\\', 'u', '0', '0', Nat.digitChar (c.toNat / 16), Nat.digitChar (c.toNat % 16)]
  else [c]

def quoted (s : String) : List Char := ['"'] ++ s.toList.flatMap escape ++ ['"']

/-- Puts commas between texts. -/
def joinCommas : List (List Char) → List Char
  | [] => []
  | [x] => x
  | x :: xs => x ++ [','] ++ joinCommas xs

mutual

def chars : Value → List Char
  | null => ['n', 'u', 'l', 'l']
  | bool true => ['t', 'r', 'u', 'e']
  | bool false => ['f', 'a', 'l', 's', 'e']
  | number n => Nat.toDigits 10 n
  | string s => quoted s
  | array items => ['['] ++ joinCommas (itemChars items) ++ [']']
  | object fields => ['\x7b'] ++ joinCommas (fieldChars fields) ++ ['\x7d']

def itemChars : List Value → List (List Char)
  | [] => []
  | v :: vs => chars v :: itemChars vs

def fieldChars : List (String × Value) → List (List Char)
  | [] => []
  | (k, v) :: fs => (quoted k ++ [':'] ++ chars v) :: fieldChars fs

end

def render (v : Value) : String := String.ofList v.chars

def ofOption {α : Type} (f : α → Value) : Option α → Value
  | none => null
  | some a => f a

end Value

end Json

end TxRecovery
