import TxRecovery.Decimal.Shortest

/-!
# Numbers in JSON text

A number literal is kept as its digits. Read as a value it is a whole number if it has neither
fraction nor exponent and fits in 64 bits, and a double otherwise; a literal beyond the doubles has
no value. For doubles the first digits that fit in 64 bits count, the others only shift the point.
-/

namespace TxRecovery

namespace Json

structure Number where
  negative : Bool
  whole : List Nat
  /-- Empty if there is no point. -/
  fraction : List Nat
  /-- Sign and digits. -/
  exponent : Option (Bool × List Nat)

namespace Number

def maxWord : Nat := UInt64.size - 1

/-- A significand and the number of digits left out of it. -/
def readWhole : List Nat → Nat → Nat × Nat
  | [], n => (n, 0)
  | d :: ds, n => if n * 10 + d ≤ maxWord then readWhole ds (n * 10 + d) else (n, ds.length + 1)

/-- The significand with the fraction digits that fit, and how many those are. -/
def readFraction : List Nat → Nat → Nat × Nat
  | [], n => (n, 0)
  | d :: ds, n =>
    if n * 10 + d ≤ maxWord then
      let (n, used) := readFraction ds (n * 10 + d)
      (n, used + 1)
    else (n, 0)

def power (e : Nat) : Float := Float.ofScientific 1 false e

/-- `x / 10 ^ e`, in steps that stay within the doubles. -/
def divide (x : Float) (e : Nat) : Float :=
  if e ≤ 308 then x / power e
  else if x == 0 then x
  else divide (x / power 308) (e - 308)
termination_by e

/-- `significand * 10 ^ e`, unless it is too large. -/
def scale (significand : Nat) (e : Int) : Option Float :=
  let x := (UInt64.ofNat significand).toFloat
  if e < 0 then some (divide x (-e).toNat)
  else if 308 < e then if x == 0 then some x else none
  else
    let y := x * power e.toNat
    if y.isInf then none else some y

inductive Value where
  | whole (n : Int)
  | float (x : Float)

/-- The value of a literal, unless it is too large. -/
def value? (n : Number) : Option Value :=
  let signed (x : Float) : Value := .float (if n.negative then -x else x)
  let (significand, dropped) := readWhole n.whole 0
  match n.fraction, n.exponent with
  | [], none =>
    if dropped ≠ 0 then (scale significand dropped).map signed
    else if !n.negative then some (.whole significand)
    else if significand = 0 || 1 <<< 63 < significand then
      some (signed (UInt64.ofNat significand).toFloat)
    else some (.whole (-significand))
  | fraction, exponent =>
    let (significand, used) := readFraction fraction significand
    let start : Int := (dropped : Int) - (used : Int)
    match exponent with
    | none => (scale significand start).map signed
    | some (negative, digits) =>
      let e : Nat := digits.foldl (fun e d => e * 10 + d) 0
      if 1 <<< 31 ≤ e then
        if significand = 0 || negative then some (signed 0) else none
      else (scale significand (if negative then start - (e : Int) else start + (e : Int))).map signed

/-- How messages write a double: positionally from five places behind the point to sixteen before
it. -/
def layout : Decimal.Layout := ⟨-5, 15⟩

end Number

end Json

end TxRecovery
