import TxRecovery.Digest.Sha512
import TxRecovery.Text.Base64
import TxRecovery.Text.Hex

/-!
# Transaction hashes

`TxHash` identifies a private transaction: it is the SHA-512 of the payload's ciphertext, the same
for every view of the transaction. `SecurityHash` is the value that a payload expects of a
transaction it affects; it is carried and compared, never computed.
-/

namespace TxRecovery

structure TxHash where
  bytes : Bytes
deriving DecidableEq

namespace TxHash

instance : Inhabited TxHash := ⟨⟨[]⟩⟩

instance : Ord TxHash := ⟨fun a b => compare a.bytes b.bytes⟩

instance : Std.TransOrd TxHash where
  eq_swap := Std.OrientedOrd.eq_swap (α := Bytes)
  isLE_trans := Std.TransOrd.isLE_trans (α := Bytes)

instance : Std.LawfulEqOrd TxHash where
  eq_of_compare {a b} h := by
    have := Std.LawfulEqOrd.eq_of_compare (α := Bytes) h
    cases a; cases b; cases this; rfl
  compare_self := Std.ReflOrd.compare_self (α := Bytes)

/-- Bytes of a hash that was computed. -/
def length : Nat := 64

def ofCiphertext (ciphertext : Bytes) : TxHash := ⟨Sha512.hash ciphertext⟩

theorem length_ofCiphertext (ciphertext : Bytes) :
    (ofCiphertext ciphertext).bytes.length = length :=
  Sha512.length_hash ciphertext

def toBase64 (h : TxHash) : String := Base64.encode h.bytes

/-- How traces show a hash. -/
def describe (h : TxHash) : String := "MessageHash(" ++ h.toBase64 ++ ")"

end TxHash

structure SecurityHash where
  bytes : Bytes
deriving DecidableEq, Inhabited

/-- How traces show a security hash. -/
def SecurityHash.describe (h : SecurityHash) : String :=
  "SecurityHash(" ++ Hex.encode h.bytes ++ ")"

end TxRecovery
