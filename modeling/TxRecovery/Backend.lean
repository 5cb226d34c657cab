import TxRecovery.Keyring
import TxRecovery.Ledger.Commit
import TxRecovery.Op
import TxRecovery.Staging.Area

/-!
# What recovery works with

Resending and synchronising reach a node's enclave, ledger, staging area, commit path and peers only
through a `Backend`, so they can be said and run over any of them. `ResendError` gathers what may
fail underneath.
-/

namespace TxRecovery

inductive ResendError where
  | enclaveUnavailable
  /-- No owned key opens a payload that should be relayed. -/
  | keyNotFound (ciphertext : Bytes)
  | invalidBatchSize
  | invalidPublicKey (error : KeyError)
  | payload (error : PayloadError)
  | db (error : DbError)
  | commit (error : CommitError)
deriving DecidableEq

def ResendError.message : ResendError → String
  | enclaveUnavailable => "enclave is not available"
  | keyNotFound c => "No key found as recipient of message " ++ Base64.encode c
  | invalidBatchSize => "batch size must be at least 1"
  | invalidPublicKey e => "invalid public key: " ++ e.message
  | payload e => e.message
  | db e => e.message
  | commit e => e.message

structure Backend (σ : Type) where
  enclaveStatus : StateM σ EnclaveStatus
  ownedKeys : StateM σ (SortedSet PublicKey)
  openPayload : Payload → PublicKey → StateM σ (Except EnclaveError Bytes)
  ledgerSize : Op DbError σ Nat
  ledgerPage : (offset max : Nat) → Op DbError σ (List StoredTx)
  publish : List Payload → PublicKey → StateM σ Unit
  upsert : TxHash → Staging.ViewKey → Staging.Version → Op DbError σ Staging.Row
  areaSize : Op DbError σ Nat
  countStaged : Op DbError σ Nat
  assignStages : (batch : Nat) → Op DbError σ Unit
  stagedPage : (offset max : Nat) → Op DbError σ (List Staging.Row)
  clearArea : (batch : Nat) → Op DbError σ Nat
  commit : Bytes → Op CommitError σ TxHash

end TxRecovery
