import TxRecovery.Bytes
import TxRecovery.Text.Quoted

/-!
# Hexadecimal text

Two digits a byte, written in lower case and read in either case.
-/

namespace TxRecovery

namespace Hex

inductive Fault where
  | oddLength
  | invalidCharacter (byte : UInt8) (position : Nat)
deriving DecidableEq

def Fault.message : Fault → String
  | oddLength => "Odd number of digits"
  | invalidCharacter b i =>
    s!"Invalid character {Text.quoteChar (Char.ofNat b.toNat)} at position {i}"

/-- The digit for a value below 16. -/
def digit (v : Nat) : UInt8 :=
  if v < 10 then UInt8.ofNat (48 + v) else UInt8.ofNat (97 + (v - 10))

def value? (b : UInt8) : Option Nat :=
  if 48 ≤ b ∧ b ≤ 57 then some (b.toNat - 48)
  else if 97 ≤ b ∧ b ≤ 102 then some (b.toNat - 97 + 10)
  else if 65 ≤ b ∧ b ≤ 70 then some (b.toNat - 65 + 10)
  else none

theorem value?_digit : ∀ v : Fin 16, value? (digit v.val) = some v.val := by decide

def encodeBytes (bs : Bytes) : Bytes :=
  bs.flatMap fun b => [digit (b.toNat / 16), digit (b.toNat % 16)]

def encode (bs : Bytes) : String :=
  String.ofList ((encodeBytes bs).map fun b => Char.ofNat b.toNat)

def readDigit (position : Nat) (b : UInt8) : Except Fault Nat :=
  match value? b with
  | some v => .ok v
  | none => .error (.invalidCharacter b position)

/-- Reads digit pairs from `position` on. -/
def decodePairs (position : Nat) : Bytes → Except Fault Bytes
  | a :: b :: rest => do
    let hi ← readDigit position a
    let lo ← readDigit (position + 1) b
    let bs ← decodePairs (position + 2) rest
    .ok (UInt8.ofNat (hi * 16 + lo) :: bs)
  | _ => .ok []

def decode (text : Bytes) : Except Fault Bytes :=
  if text.length % 2 = 1 then .error .oddLength else decodePairs 0 text

end Hex

end TxRecovery
