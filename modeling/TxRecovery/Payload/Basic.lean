import TxRecovery.Key
import TxRecovery.SortedMap
import TxRecovery.TxHash

/-!
# Payloads

A private transaction as it travels between nodes. The body is sealed under a master key, and the
master key is sealed once per recipient, in a box. The sender's payload has one box per recipient
key, in the same order; a view narrowed to one recipient has that recipient's box alone, with or
without its key.
-/

namespace TxRecovery

/-- Who sees whom. -/
inductive PrivacyMode where
  | standard
  | partyProtection
  | stateValidation
deriving DecidableEq, Inhabited

namespace PrivacyMode

def all : List PrivacyMode := [standard, partyProtection, stateValidation]

def name : PrivacyMode → String
  | standard => "StandardPrivate"
  | partyProtection => "PartyProtection"
  | stateValidation => "PrivateStateValidation"

def isStandard (m : PrivacyMode) : Bool := m == standard

end PrivacyMode

structure Payload where
  sender : PublicKey
  ciphertext : Bytes
  cipherNonce : Block 12
  boxes : List Bytes
  boxNonce : Block 12
  /-- Aligned by place with `boxes`, as far as both reach. -/
  recipients : List PublicKey
  mode : PrivacyMode
  /-- The transactions this one depends on, with the security hash expected of each. -/
  affected : SortedMap TxHash SecurityHash
  execHash : Bytes
deriving DecidableEq, Inhabited

namespace Payload

def hash (p : Payload) : TxHash := .ofCiphertext p.ciphertext

def hasRecipient (p : Payload) (k : PublicKey) : Bool := p.recipients.contains k

/-- The box at the first place where `k` is listed. -/
def boxOf? (p : Payload) (k : PublicKey) : Option Bytes :=
  match p.recipients.findIdx? (· == k) with
  | some i => p.boxes[i]?
  | none => none

end Payload

inductive PayloadError where
  | decode (detail : String)
  | recipientNotFound (key : PublicKey)
deriving DecidableEq

def PayloadError.message : PayloadError → String
  | decode d => "failed to decode payload: " ++ d
  | recipientNotFound k => "recipient " ++ k.toBase64 ++ " is not a recipient of this payload"

end TxRecovery
