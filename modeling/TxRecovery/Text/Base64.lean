import TxRecovery.Bytes

/-!
# Base64

The standard alphabet with padding. `decode` reads the bytes of a text and accepts only the
canonical form: full padding and no bits set beyond the last byte. Groups of four symbols are read
from the left; the last group, which alone may hold padding, has rules of its own.
-/

namespace TxRecovery

namespace Base64

inductive Fault where
  | invalidSymbol (symbol : UInt8) (offset : Nat)
  | invalidLength (length : Nat)
  | invalidLastSymbol (symbol : UInt8) (offset : Nat)
  | invalidPadding
deriving DecidableEq

def Fault.message : Fault → String
  | invalidSymbol b i => s!"Invalid symbol {b.toNat}, offset {i}."
  | invalidLength n => s!"Invalid input length: {n}"
  | invalidLastSymbol b i => s!"Invalid last symbol {b.toNat}, offset {i}."
  | invalidPadding => "Invalid padding"

def pad : UInt8 := 61

/-- The symbol for a value below 64. -/
def symbol (v : Nat) : UInt8 :=
  if v < 26 then UInt8.ofNat (65 + v)
  else if v < 52 then UInt8.ofNat (97 + (v - 26))
  else if v < 62 then UInt8.ofNat (48 + (v - 52))
  else if v = 62 then 43
  else 47

def value? (b : UInt8) : Option Nat :=
  if 65 ≤ b ∧ b ≤ 90 then some (b.toNat - 65)
  else if 97 ≤ b ∧ b ≤ 122 then some (b.toNat - 97 + 26)
  else if 48 ≤ b ∧ b ≤ 57 then some (b.toNat - 48 + 52)
  else if b = 43 then some 62
  else if b = 47 then some 63
  else none

theorem value?_symbol : ∀ v : Fin 64, value? (symbol v.val) = some v.val := by decide

/-- The bytes of the written form. -/
def encodeBytes : Bytes → Bytes
  | [] => []
  | [a] => [symbol (a.toNat / 4), symbol (a.toNat % 4 * 16), pad, pad]
  | [a, b] =>
    [symbol (a.toNat / 4), symbol (a.toNat % 4 * 16 + b.toNat / 16), symbol (b.toNat % 16 * 4), pad]
  | a :: b :: c :: rest =>
    symbol (a.toNat / 4) :: symbol (a.toNat % 4 * 16 + b.toNat / 16)
      :: symbol (b.toNat % 16 * 4 + c.toNat / 64) :: symbol (c.toNat % 64) :: encodeBytes rest

def encode (bs : Bytes) : String :=
  String.ofList ((encodeBytes bs).map fun b => Char.ofNat b.toNat)

/-- The value of the symbol at `offset`; padding is no symbol. -/
def readSymbol (offset : Nat) (b : UInt8) : Except Fault Nat :=
  match value? b with
  | some v => .ok v
  | none => .error (.invalidSymbol b offset)

/-- Reads the symbols of the last group up to its padding. Padding may only fill places three and
four and nothing may follow it. -/
def readLast (offset : Nat) (group : Bytes) : Except Fault (List Nat) :=
  go 0 group
where
  go (i : Nat) : Bytes → Except Fault (List Nat)
    | [] => .ok []
    | b :: rest =>
      if b = pad then
        if i < 2 then .error (.invalidSymbol b (offset + i))
        else if rest.all (· = pad) then .ok []
        else .error (.invalidSymbol pad (offset + i))
      else do
        let v ← readSymbol (offset + i) b
        let vs ← go (i + 1) rest
        .ok (v :: vs)

/-- The last group, of at most four bytes: two symbols give one byte, three two, four three. -/
def decodeLast (offset : Nat) (group : Bytes) : Except Fault Bytes := do
  let vs ← readLast offset group
  let last := group.getD (vs.length - 1) 0
  match vs with
  | [v, w] =>
    if group.length ≠ 4 then .error .invalidPadding
    else if w % 16 ≠ 0 then .error (.invalidLastSymbol last (offset + 1))
    else .ok [UInt8.ofNat (v * 4 + w / 16)]
  | [v, w, x] =>
    if group.length ≠ 4 then .error .invalidPadding
    else if x % 4 ≠ 0 then .error (.invalidLastSymbol last (offset + 2))
    else .ok [UInt8.ofNat (v * 4 + w / 16), UInt8.ofNat (w % 16 * 16 + x / 4)]
  | [v, w, x, y] =>
    .ok [UInt8.ofNat (v * 4 + w / 16), UInt8.ofNat (w % 16 * 16 + x / 4),
      UInt8.ofNat (x % 4 * 64 + y)]
  | vs => .error (.invalidLength (offset + vs.length))

def decodeGroups (offset : Nat) : Bytes → Except Fault Bytes
  | a :: b :: c :: d :: e :: rest => do
    let v ← readSymbol offset a
    let w ← readSymbol (offset + 1) b
    let x ← readSymbol (offset + 2) c
    let y ← readSymbol (offset + 3) d
    let bs ← decodeGroups (offset + 4) (e :: rest)
    .ok (UInt8.ofNat (v * 4 + w / 16) :: UInt8.ofNat (w % 16 * 16 + x / 4)
      :: UInt8.ofNat (x % 4 * 64 + y) :: bs)
  | group => decodeLast offset group

/-- A single byte after full groups is reported first if it is no symbol and no padding. -/
def decode (text : Bytes) : Except Fault Bytes :=
  match text.getLast? with
  | none => .ok []
  | some b =>
    if text.length % 4 = 1 ∧ b ≠ pad ∧ value? b = none then
      .error (.invalidSymbol b (text.length - 1))
    else decodeGroups 0 text

end Base64

end TxRecovery
