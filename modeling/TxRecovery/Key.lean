import TxRecovery.Text.Base64
import TxRecovery.Text.Blank
import TxRecovery.Text.Hex
import TxRecovery.Text.Utf8

/-!
# Public keys

A public key names a party. Keys are ordered bytewise. Between nodes they travel as base64, on
people's screens they are hexadecimal; both readers forgive blanks around the text and nothing else.
-/

namespace TxRecovery

inductive KeyError where
  | invalidPublicKey
  | invalidSecretKey
  | base64 (fault : Base64.Fault)
  | hex (fault : Hex.Fault)
deriving DecidableEq

def KeyError.message : KeyError → String
  | invalidPublicKey => "invalid public key: expected 32 bytes"
  | invalidSecretKey => "invalid secret key: expected 32 bytes"
  | base64 f => "invalid key encoding: " ++ f.message
  | hex f => "invalid key encoding: " ++ f.message

/-- The bytes of a text without the blanks at its ends. -/
def Text.trimmedBytes (s : String) : Bytes := Utf8.encodeChars (Text.trim s.toList)

structure PublicKey where
  block : Block 32
deriving DecidableEq

namespace PublicKey

instance : Inhabited PublicKey := ⟨⟨default⟩⟩

instance : Ord PublicKey := ⟨fun a b => compare a.block b.block⟩

instance : Std.TransOrd PublicKey where
  eq_swap := Std.OrientedOrd.eq_swap (α := Block 32)
  isLE_trans := Std.TransOrd.isLE_trans (α := Block 32)

instance : Std.LawfulEqOrd PublicKey where
  eq_of_compare {a b} h := by
    have := Std.LawfulEqOrd.eq_of_compare (α := Block 32) h
    cases a; cases b; cases this; rfl
  compare_self := Std.ReflOrd.compare_self (α := Block 32)

/-- Bytes of a key. -/
def length : Nat := 32

def bytes (k : PublicKey) : Bytes := k.block.toList

theorem length_bytes (k : PublicKey) : k.bytes.length = length := k.block.length_toList

def ofBytes (bs : Bytes) : Except KeyError PublicKey :=
  match Block.ofBytes? 32 bs with
  | some b => .ok ⟨b⟩
  | none => .error .invalidPublicKey

def toBase64 (k : PublicKey) : String := Base64.encode k.bytes

def toHex (k : PublicKey) : String := Hex.encode k.bytes

def ofBase64 (s : String) : Except KeyError PublicKey := do
  let raw ← (Base64.decode (Text.trimmedBytes s)).mapError .base64
  ofBytes raw

def ofHex (s : String) : Except KeyError PublicKey := do
  let raw ← (Hex.decode (Text.trimmedBytes s)).mapError .hex
  ofBytes raw

/-- How traces show a key. -/
def describe (k : PublicKey) : String := "PublicKey(" ++ k.toHex ++ ")"

end PublicKey

end TxRecovery
