import TxRecovery.Cipher.Aes

/-!
# AES-256-GCM

Authenticated encryption without associated data, under a nonce of twelve bytes. `encrypt` appends the
tag of sixteen bytes to the ciphertext; `decrypt?` gives the plaintext back if the tag
fits.
-/

namespace TxRecovery

namespace Gcm

/-- The field polynomial; field elements are read with their first bit as the highest. -/
def reduction : Nat := 0xE1 <<< 120

/-- Multiplication in the field of `2 ^ 128` elements, over the highest `n` bits of `x`. -/
def multiplyFrom : (n : Nat) → (x v acc : Nat) → Nat
  | 0, _, _, acc => acc
  | n + 1, x, v, acc =>
    multiplyFrom n x (if v % 2 = 1 then (v / 2) ^^^ reduction else v / 2)
      (if x.testBit n then acc ^^^ v else acc)

def multiply (x y : Nat) : Nat := multiplyFrom 128 x y 0

/-- Absorbs `n` blocks, the last filled up with zeros. -/
def absorb (h : Nat) : Nat → Bytes → Nat → Nat
  | 0, _, acc => acc
  | n + 1, bs, acc =>
    absorb h n (bs.drop 16) (multiply (acc ^^^ Bytes.toNatBE (Block.ofPrefix 16 bs).toList) h)

def blocks (bs : Bytes) : Nat := (bs.length + 15) / 16

/-- The counter block number `n` of a nonce. -/
def counterBlock (nonce : Block 12) (n : Nat) : Bytes :=
  nonce.toList ++ Bytes.bigEndian 4 n

/-- The key stream from counter `n` on, applied to `count` blocks. -/
def applyStream (keys : List Bytes) (nonce : Block 12) : (count n : Nat) → Bytes → Bytes
  | 0, _, _ => []
  | count + 1, n, bs =>
    Aes.xor (bs.take 16) (Aes.encipher keys (counterBlock nonce n))
      ++ applyStream keys nonce count (n + 1) (bs.drop 16)

def crypt (keys : List Bytes) (nonce : Block 12) (bs : Bytes) : Bytes :=
  applyStream keys nonce (blocks bs) 2 bs

def tag (keys : List Bytes) (nonce : Block 12) (ciphertext : Bytes) : Bytes :=
  let h := Bytes.toNatBE (Aes.encipher keys (List.replicate 16 0))
  let sum := absorb h (blocks ciphertext) ciphertext 0
  let digest := multiply (sum ^^^ (ciphertext.length * 8)) h
  Aes.xor (Bytes.bigEndian 16 digest) (Aes.encipher keys (counterBlock nonce 1))

/-- Bytes of a tag. -/
def tagLength : Nat := 16

def encrypt (key : Block 32) (nonce : Block 12) (plaintext : Bytes) : Bytes :=
  let keys := Aes.roundKeys key
  let ciphertext := crypt keys nonce plaintext
  ciphertext ++ tag keys nonce ciphertext

def decrypt? (key : Block 32) (nonce : Block 12) (sealed : Bytes) : Option Bytes :=
  if sealed.length < tagLength then none
  else
    let keys := Aes.roundKeys key
    let ciphertext := sealed.take (sealed.length - tagLength)
    if sealed.drop (sealed.length - tagLength) = tag keys nonce ciphertext then
      some (crypt keys nonce ciphertext)
    else none

end Gcm

end TxRecovery
