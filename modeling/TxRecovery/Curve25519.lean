import TxRecovery.Bytes

/-!
# Agreement on Curve25519

Scalar multiplication on the curve in Montgomery form, by u-coordinates alone: a ladder over the 255
bits of the scalar in the field of `2 ^ 255 - 19` elements. Points of low order are not refused.
-/

namespace TxRecovery

namespace Curve25519

def p : Nat := (1 <<< 255) - 19

def add (a b : Nat) : Nat := (a + b) % p
def sub (a b : Nat) : Nat := (a + (p - b)) % p
def mul (a b : Nat) : Nat := a * b % p

/-- `a ^ e`, from the lowest of `n` bits of the exponent up. -/
def pow : (n : Nat) → (a e acc : Nat) → Nat
  | 0, _, _, acc => acc
  | n + 1, a, e, acc => pow n (mul a a) (e / 2) (if e % 2 = 1 then mul acc a else acc)

/-- The inverse, zero for zero. -/
def inverse (a : Nat) : Nat := pow 255 a (p - 2) 1

/-- Two points whose difference is the base point, each as a quotient `x / z`. -/
structure Ladder where
  x2 : Nat
  z2 : Nat
  x3 : Nat
  z3 : Nat

def Ladder.swap (l : Ladder) : Ladder := ⟨l.x3, l.z3, l.x2, l.z2⟩

/-- Doubles the first point and adds the two; `u` is the base point. -/
def Ladder.step (l : Ladder) (u : Nat) : Ladder :=
  let a := add l.x2 l.z2
  let b := sub l.x2 l.z2
  let aa := mul a a
  let bb := mul b b
  let e := sub aa bb
  let da := mul (sub l.x3 l.z3) a
  let cb := mul (add l.x3 l.z3) b
  let sum := add da cb
  let diff := sub da cb
  ⟨mul aa bb, mul e (add aa (mul 121665 e)), mul sum sum, mul u (mul diff diff)⟩

/-- Works off the lowest `n` bits of the scalar, from the highest down. -/
def Ladder.climb : (n : Nat) → (k u : Nat) → Ladder → Ladder
  | 0, _, _, l => l
  | n + 1, k, u, l =>
    if k.testBit n then climb n k u (l.swap.step u).swap else climb n k u (l.step u)

def multiply (k u : Nat) : Nat :=
  let l := Ladder.climb 255 k u ⟨1, 0, u, 1⟩
  mul l.x2 (inverse l.z2)

/-- The scalar of a secret: a multiple of eight with bit 254 set and no higher bit. -/
def scalar (secret : Block 32) : Nat :=
  let n := Bytes.toNatLE secret.toList
  n % (1 <<< 254) / 8 * 8 + (1 <<< 254)

/-- The coordinate of a public key, whose highest bit is ignored. -/
def coordinate (key : Block 32) : Nat :=
  Bytes.toNatLE key.toList % (1 <<< 255) % p

def agree (secret peer : Block 32) : Block 32 :=
  .ofNatLE 32 (multiply (scalar secret) (coordinate peer))

def publicOf (secret : Block 32) : Block 32 :=
  .ofNatLE 32 (multiply (scalar secret) 9)

end Curve25519

end TxRecovery
