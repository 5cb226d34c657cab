/-!
# Shortest decimal digits

A finite binary fraction `m * 2 ^ q` is written with the fewest decimal digits that still read back
as it: for one digit, two digits and so on, the two neighbours on that decimal grid are held against
the interval of the reals that round to the fraction, and the first grid with a hit wins, the nearer
neighbour if both hit. All comparisons are between natural numbers.
-/

namespace TxRecovery

namespace Decimal

/-- The positive fraction `mantissa * 2 ^ exponent`. At the lower end of a power of two the next
smaller fraction is half as far away as the next larger one. -/
structure Binary where
  mantissa : Nat
  exponent : Int
  lowerIsNear : Bool

/-- Digits `d` and exponent `k` stand for `d * 10 ^ k`. -/
structure Digits where
  digits : Nat
  exponent : Int
deriving DecidableEq

namespace Binary

/-- A quarter unit in the last place, put on one scale with the decimal grid of step `10 ^ k`:
both ends are multiplied up until they are whole. -/
structure Scale where
  quarter : Nat
  step : Nat

def scale (b : Binary) (k : Int) : Scale where
  quarter := Nat.pow 10 (-k).toNat <<< (b.exponent - 2).toNat
  step := Nat.pow 10 k.toNat <<< (2 - b.exponent).toNat

/-- Whether `n` steps of the grid round to the fraction. -/
def rounds (b : Binary) (s : Scale) (n : Nat) : Bool :=
  let lower := (4 * b.mantissa - if b.lowerIsNear then 1 else 2) * s.quarter
  let upper := (4 * b.mantissa + 2) * s.quarter
  let x := n * s.step
  if b.mantissa % 2 = 0 then decide (lower ≤ x) && decide (x ≤ upper)
  else decide (lower < x) && decide (x < upper)

/-- The neighbour on the grid of step `10 ^ k` that reads back, the nearer one of two. -/
def onGrid? (b : Binary) (k : Int) : Option Digits :=
  let s := b.scale k
  let value := 4 * b.mantissa * s.quarter
  let n := value / s.step
  match b.rounds s n, b.rounds s (n + 1) with
  | true, true =>
    let below := value - n * s.step
    let above := (n + 1) * s.step - value
    if below < above || (below = above && n % 2 = 0) then some ⟨n, k⟩ else some ⟨n + 1, k⟩
  | true, false => some ⟨n, k⟩
  | false, true => some ⟨n + 1, k⟩
  | false, false => none

/-- Whether the fraction is below `10 ^ k`. -/
def below (b : Binary) (k : Int) : Bool :=
  let s := b.scale k
  decide (4 * b.mantissa * s.quarter < s.step)

/-- The number of places before the point, negative for zeros behind it. -/
def places (b : Binary) : Int :=
  let candidates : List Int := (List.range 640).map fun (i : Nat) => (i : Int) - 330
  (candidates.find? b.below).getD 310

def shortest (b : Binary) : Digits :=
  let places := b.places
  ((List.range 17).findSome? fun (i : Nat) => b.onGrid? (places - 1 - (i : Int))).getD ⟨0, 0⟩

end Binary

/-- Moves trailing zeros of the digits into the exponent. -/
def Digits.trim (d : Digits) : Digits :=
  go 20 d
where
  go : Nat → Digits → Digits
    | 0, d => d
    | n + 1, d =>
      if d.digits ≠ 0 ∧ d.digits % 10 = 0 then go n ⟨d.digits / 10, d.exponent + 1⟩ else d

/-- The parts of a double: sign and, unless it is zero, magnitude. -/
def ofFloat (x : Float) : Bool × Option Binary :=
  let bits : Nat := x.toBits.toNat
  let negative := bits ≥ 1 <<< 63
  let biased : Nat := (bits >>> 52) % (1 <<< 11)
  let fraction : Nat := bits % (1 <<< 52)
  let magnitude :=
    if biased = 0 then
      if fraction = 0 then none else some ⟨fraction, -1074, false⟩
    else some ⟨fraction + (1 <<< 52), (biased : Int) - 1075, fraction = 0 && biased ≠ 1⟩
  (negative, magnitude)

/-- How a format lays digits out. -/
structure Layout where
  /-- Exponents of the first digit from and up to which no exponent is written. -/
  positionalFrom : Int
  positionalTo : Int

/-- An exponent has a sign, also a plus, and no leading zeros. -/
def Layout.write (l : Layout) (d : Digits) : List Char :=
  let d := d.trim
  let digits := Nat.toDigits 10 d.digits
  let first := d.exponent + digits.length - 1
  if l.positionalFrom ≤ first && first ≤ l.positionalTo then
    if 0 ≤ d.exponent then digits ++ List.replicate d.exponent.toNat '0' ++ ['.', '0']
    else if 0 ≤ first then
      digits.take (first.toNat + 1) ++ ['.'] ++ digits.drop (first.toNat + 1)
    else ['0', '.'] ++ List.replicate (-first - 1).toNat '0' ++ digits
  else
    let mantissa :=
      match digits with
      | [] => []
      | [c] => [c]
      | c :: cs => c :: '.' :: cs
    let sign := if first < 0 then '-' else '+'
    mantissa ++ ['e', sign] ++ Nat.toDigits 10 first.natAbs

def Layout.writeFloat (l : Layout) (x : Float) : String :=
  let (negative, magnitude) := ofFloat x
  let body :=
    match magnitude with
    | none => ['0', '.', '0']
    | some b => l.write b.shortest
  String.ofList (if negative then '-' :: body else body)

end Decimal

end TxRecovery
