import TxRecovery.Backend
import TxRecovery.Payload.View

/-!
# Resending

A peer that lost its history asks for every transaction it is entitled to. The node walks its ledger
page by page, finds out what it is to each payload, and publishes the views in batches.

The node is a payload's sender if it owns the sender key. It relays a payload that concerns the
target as its sender or as a listed recipient, if an owned key opens it. A payload that should be
relayed and that no owned key opens ends the run: the ledger holds what the node cannot account for.
-/

namespace TxRecovery

structure ResendRequest where
  /-- The target's key in base64. -/
  target : String
  batchSize : Nat
deriving DecidableEq

/-- The batch size of a caller who has none in mind. -/
def ResendRequest.standardBatchSize : Nat := 100

/-- What the node is to a payload, as seen from a target. -/
inductive Role where
  | sender
  | relay (ownedKey : PublicKey)
  | unrelated
deriving DecidableEq

namespace Backend

variable {σ : Type}

/-- The first of these keys that opens the payload. -/
def openingKey (b : Backend σ) (p : Payload) : List PublicKey → Op ResendError σ PublicKey
  | [] => throw (.keyNotFound p.ciphertext)
  | k :: ks => do
    match ← b.openPayload p k with
    | .ok _ => pure k
    | .error .unavailable => throw .enclaveUnavailable
    | .error _ => openingKey b p ks

def roleOf (b : Backend σ) (owned : SortedSet PublicKey) (target : PublicKey) (p : Payload) :
    Op ResendError σ Role := do
  if p.sender ∈ owned then pure .sender
  else if p.sender ≠ target ∧ !p.hasRecipient target then pure .unrelated
  else
    let k ← b.openingKey p owned.toList
    pure (.relay k)

end Backend

/-- The view that a target is given of a payload, if any. -/
def Role.view? (role : Role) (target : PublicKey) (p : Payload) :
    Except PayloadError (Option Payload) :=
  match role with
  | .sender =>
    if !p.hasRecipient target then .ok none
    else if p.mode.isStandard then (p.forRecipient target).map some
    else .ok (some p)
  | .relay k => .ok (some (p.withRecipient k))
  | .unrelated => .ok none

namespace Backend

variable {σ : Type}

/-- Adds a view to those waiting, and publishes them once there are `limit`. -/
def enqueue (b : Backend σ) (limit : Nat) (target : PublicKey) (waiting : List Payload)
    (view : Payload) : Op ResendError σ (List Payload) := do
  let waiting := waiting ++ [view]
  if limit ≤ waiting.length then
    b.publish waiting target
    pure []
  else pure waiting

/-- Publishes what is waiting, if anything is. -/
def flush (b : Backend σ) (target : PublicKey) (waiting : List Payload) : Op ResendError σ Unit :=
  if waiting.isEmpty then pure () else b.publish waiting target

def examine (b : Backend σ) (owned : SortedSet PublicKey) (limit : Nat) (target : PublicKey)
    (waiting : List Payload) (row : StoredTx) : Op ResendError σ (List Payload) := do
  let p ← Op.ofExcept ((Payload.decode row.raw).mapError .payload)
  let role ← b.roleOf owned target p
  match ← Op.ofExcept ((role.view? target p).mapError .payload) with
  | some view => b.enqueue limit target waiting view
  | none => pure waiting

/-- Examines the rows from `offset` up to `count`, or up to the first empty page. Answers with how
many rows there were up to the end and with the views still waiting. -/
def examineFrom (b : Backend σ) (owned : SortedSet PublicKey) (limit : Nat) (target : PublicKey)
    (count offset : Nat) (waiting : List Payload) : Op ResendError σ (Nat × List Payload) :=
  if _h : offset < count then do
    match ← (b.ledgerPage offset (min limit (count - offset))).mapError .db with
    | [] => pure (offset, waiting)
    | row :: rows =>
      let waiting ← (row :: rows).foldlM (b.examine owned limit target) waiting
      examineFrom b owned limit target count (offset + (rows.length + 1)) waiting
  else pure (offset, waiting)
termination_by count - offset

/-- Publishes to the target every view it is entitled to. Answers with the number of rows
examined. -/
def resend (b : Backend σ) (request : ResendRequest) : Op ResendError σ Nat := do
  if (← b.enclaveStatus) ≠ .started then throw .enclaveUnavailable
  if request.batchSize = 0 then throw .invalidBatchSize
  let target ← Op.ofExcept ((PublicKey.ofBase64 request.target).mapError .invalidPublicKey)
  let owned ← b.ownedKeys
  let count ← b.ledgerSize.mapError .db
  let (examined, waiting) ← b.examineFrom owned request.batchSize target count 0 []
  b.flush target waiting
  let _ ← b.ledgerSize.mapError .db
  pure examined

end Backend

end TxRecovery
