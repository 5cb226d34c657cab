import TxRecovery.CipherSuite
import TxRecovery.Payload.Basic

/-!
# Keyrings

The keys that a node owns, and what it can do with them while it is started: seal a payload for its
recipients, and open one that an owned key is party to. The sender opens a payload through any
recipient's box, since a box key belongs to both parties; a recipient opens it through the box
listed for its key, or through any box if its key is not listed.
-/

namespace TxRecovery

inductive EnclaveStatus where
  | started
  | stopped
deriving DecidableEq

inductive EnclaveError where
  | keyNotFound
  | unavailable
  | crypto (error : CipherError)
deriving DecidableEq

def EnclaveError.message : EnclaveError → String
  | keyNotFound => "no owned key can open this payload"
  | unavailable => "enclave is not started"
  | crypto e => "crypto failure: " ++ e.message

structure Keyring where
  suite : CipherSuite
  status : EnclaveStatus
  secrets : SortedMap PublicKey (Block 32)

namespace Keyring

/-- A started keyring over these secrets. -/
def ofSecrets (suite : CipherSuite) (secrets : List (Block 32)) : Keyring :=
  ⟨suite, .started, .ofList (secrets.map fun s => (suite.publicOf s, s))⟩

def start (r : Keyring) : Keyring := { r with status := .started }

def stop (r : Keyring) : Keyring := { r with status := .stopped }

def keys (r : Keyring) : SortedSet PublicKey := .ofList r.secrets.keys

/-- The secret of an owned key, while the keyring is started. -/
def secretOf (r : Keyring) (key : PublicKey) : Except EnclaveError (Block 32) :=
  match r.status, r.secrets.get? key with
  | .stopped, _ => .error .unavailable
  | .started, none => .error .keyNotFound
  | .started, some secret => .ok secret

/-- The key of the boxes between an owned key and another party. -/
def pairKey (r : Keyring) (secret : Block 32) (ours theirs : PublicKey) : Block 32 :=
  r.suite.boxKey (r.suite.agree secret theirs) ours theirs

/-- What is drawn afresh for each payload. -/
structure Entropy where
  masterKey : Block 32
  cipherNonce : Block 12
  boxNonce : Block 12

/-- Seals a plaintext from an owned key to its recipients, as a standard private payload. -/
def encryptPayload (r : Keyring) (fresh : Entropy) (plaintext : Bytes) (sender : PublicKey)
    (recipients : List PublicKey) : Except EnclaveError Payload := do
  let secret ← r.secretOf sender
  .ok {
    sender
    ciphertext := r.suite.encrypt fresh.masterKey fresh.cipherNonce plaintext
    cipherNonce := fresh.cipherNonce
    boxes := recipients.map fun k =>
      r.suite.encrypt (r.pairKey secret sender k) fresh.boxNonce fresh.masterKey.toList
    boxNonce := fresh.boxNonce
    recipients
    mode := .standard
    affected := .empty
    execHash := []
  }

/-- The boxes that the owned key `ours` could open, each with the other party to it. -/
def candidates (p : Payload) (ours : PublicKey) : List (Bytes × PublicKey) :=
  if p.sender = ours then p.boxes.zip p.recipients
  else
    match p.boxOf? ours with
    | some box => [(box, p.sender)]
    | none => p.boxes.map (·, p.sender)

/-- Tries the boxes in order. The first that gives a master key decides. -/
def openThrough (r : Keyring) (p : Payload) (secret : Block 32) (ours : PublicKey) :
    List (Bytes × PublicKey) → Except EnclaveError Bytes
  | [] => .error .keyNotFound
  | (box, theirs) :: rest =>
    match r.suite.openMasterKey (r.pairKey secret ours theirs) p.boxNonce box with
    | .ok masterKey =>
      (r.suite.openSealed masterKey p.cipherNonce p.ciphertext).mapError .crypto
    | .error _ => openThrough r p secret ours rest

/-- Opens a payload with an owned key. -/
def openPayload (r : Keyring) (p : Payload) (key : PublicKey) : Except EnclaveError Bytes := do
  let secret ← r.secretOf key
  r.openThrough p secret key (candidates p key)

end Keyring

end TxRecovery
