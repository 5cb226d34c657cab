import TxRecovery.Cipher.Gcm
import TxRecovery.Curve25519
import TxRecovery.Digest.Blake3
import TxRecovery.Key

/-!
# Cipher suites

The primitives that payloads are sealed with, as a record, so that what holds of a payload can be
said of every suite whose decryption undoes encryption (`CipherSuite.Inverts`), for parties that agree
on the same secret (`CipherSuite.Agreeing`). `CipherSuite.standard` is the suite that nodes use:
Curve25519, BLAKE3 and AES-256-GCM.

A box key belongs to an unordered pair of parties: both keys enter its derivation in ascending order
(`boxKey_comm`).
-/

namespace TxRecovery

structure CipherSuite where
  publicOf : Block 32 → PublicKey
  agree : Block 32 → PublicKey → Block 32
  derive : Bytes → Block 32
  encrypt : Block 32 → Block 12 → Bytes → Bytes
  decrypt? : Block 32 → Block 12 → Bytes → Option Bytes

namespace CipherSuite

/-- Bytes of a key. -/
def keyLength : Nat := 32

/-- Bytes of a nonce. -/
def nonceLength : Nat := 12

/-- Sets the keys of boxes apart from all other derived keys. -/
def boxContext : String := "ptm-resync 2026 recipient box v1"

def standard : CipherSuite where
  publicOf secret := ⟨Curve25519.publicOf secret⟩
  agree secret peer := Curve25519.agree secret peer.block
  derive := Blake3.deriveKey (Utf8.encode boxContext)
  encrypt := Gcm.encrypt
  decrypt? := Gcm.decrypt?

/-- The key of the boxes between two parties, from the secret they share. -/
def boxKey (suite : CipherSuite) (shared : Block 32) (ours theirs : PublicKey) : Block 32 :=
  let (first, second) :=
    if (compare ours theirs).isLE then (ours, theirs) else (theirs, ours)
  suite.derive (shared.toList ++ first.bytes ++ second.bytes)

theorem boxKey_comm (suite : CipherSuite) (shared : Block 32) (a b : PublicKey) :
    suite.boxKey shared a b = suite.boxKey shared b a := by
  have hswap : compare a b = (compare b a).swap := Std.OrientedOrd.eq_swap
  cases h : compare b a
  · simp [boxKey, hswap, h]
  · have := Std.LawfulEqOrd.eq_of_compare h
    subst this
    rfl
  · simp [boxKey, hswap, h]

end CipherSuite

inductive CipherError where
  | decryptFailed
  | invalidKeyLength
deriving DecidableEq

def CipherError.message : CipherError → String
  | decryptFailed => "decryption failed -- wrong key or corrupted ciphertext"
  | invalidKeyLength => "invalid key length: expected 32 bytes"

namespace CipherSuite

/-- A wrong key and a damaged ciphertext look the same. -/
def openSealed (suite : CipherSuite) (key : Block 32) (nonce : Block 12) (sealed : Bytes) :
    Except CipherError Bytes :=
  match suite.decrypt? key nonce sealed with
  | some m => .ok m
  | none => .error .decryptFailed

/-- Opens a recipient's box and takes the master key out of it. -/
def openMasterKey (suite : CipherSuite) (key : Block 32) (nonce : Block 12) (box : Bytes) :
    Except CipherError (Block 32) := do
  let raw ← suite.openSealed key nonce box
  match Block.ofBytes? 32 raw with
  | some k => .ok k
  | none => .error .invalidKeyLength

end CipherSuite

/-- A party's own key: the secret and the public key that belongs to it. -/
structure KeyPair where
  secret : Block 32
  publicKey : PublicKey

namespace KeyPair

def ofSecret (suite : CipherSuite) (secret : Block 32) : KeyPair :=
  ⟨secret, suite.publicOf secret⟩

/-- Reads the secret as hexadecimal text, blanks around it ignored. -/
def ofSecretHex (suite : CipherSuite) (s : String) : Except KeyError KeyPair := do
  let raw ← (Hex.decode (Text.trimmedBytes s)).mapError .hex
  match Block.ofBytes? 32 raw with
  | some secret => .ok (ofSecret suite secret)
  | none => .error .invalidSecretKey

def secretHex (p : KeyPair) : String := Hex.encode p.secret.toList

/-- How traces show a key pair; the secret stays out. -/
def describe (p : KeyPair) : String := "KeyPair(pub=" ++ p.publicKey.toHex ++ ")"

end KeyPair

end TxRecovery
