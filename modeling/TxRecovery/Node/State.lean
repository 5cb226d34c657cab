import TxRecovery.Node.Event
import TxRecovery.Node.Metrics
import TxRecovery.Resend
import TxRecovery.Settings
import TxRecovery.Sync

/-!
# Nodes

A node is its settings, its keyring, its ledger and staging area, and what it has counted and told so
far. `Node.backend` is what recovery works with on a node: published views become events on the
node's channel, in the form in which peers accept pushes.
-/

namespace TxRecovery

/-- What a recovery pass came to. -/
structure PassSummary where
  staging : Outcome
  sync : SyncReport
  /-- Rows removed; `none` if the area was kept. -/
  cleaned : Option Nat
  completedAt : String
deriving DecidableEq, Inhabited

structure Node where
  version : String
  settings : Settings
  keyring : Keyring
  ledger : Ledger
  area : Staging.Area
  metrics : Metrics
  lastPass : Option PassSummary
  /-- Every event so far, the oldest first. -/
  events : List Event

abbrev NodeOp := Op ResendError Node

namespace Node

/-- A node over empty stores. -/
def fresh (version : String) (settings : Settings) (keyring : Keyring) : Node :=
  ⟨version, settings, keyring, .empty, .empty, .zero, none, []⟩

def emit (n : Node) (e : Event) : Node := { n with events := n.events ++ [e] }

def count (n : Node) (f : Metrics → Metrics) : Node := { n with metrics := f n.metrics }

/-- The event that carries views to the owner of a key. -/
def outbound (views : List Payload) (recipient : PublicKey) : Event :=
  .outboundBatch recipient.toBase64 (views.map fun v => Hex.encode v.encode)

def publish (n : Node) (views : List Payload) (recipient : PublicKey) : Node :=
  (n.emit (outbound views recipient)).count fun m =>
    { m with batchesPublished := m.batchesPublished + 1 }

/-- An operation that reads the node. -/
def reading {ε α : Type} (f : Node → Except ε α) : Op ε Node α :=
  ExceptT.mk fun n => (f n, n)

/-- An operation that changes the node if it does not fail. -/
def writing {ε α : Type} (f : Node → Except ε (α × Node)) : Op ε Node α :=
  ExceptT.mk fun n =>
    match f n with
    | .ok (a, n) => (.ok a, n)
    | .error e => (.error e, n)

def backend : Backend Node where
  enclaveStatus n := (n.keyring.status, n)
  ownedKeys n := (n.keyring.keys, n)
  openPayload p k := fun n => (n.keyring.openPayload p k, n)
  ledgerSize := reading fun n => .ok n.ledger.size
  ledgerPage offset max := reading fun n => n.ledger.page offset max
  publish views k := fun n => ((), n.publish views k)
  upsert h key version := writing fun n => do
    let (row, area) ← n.area.upsert h key version
    .ok (row, { n with area })
  areaSize := reading fun n => .ok n.area.size
  countStaged := reading fun n => n.area.countStaged
  assignStages batch := writing fun n => do
    .ok ((), { n with area := ← n.area.assignStages batch })
  stagedPage offset max := reading fun n => n.area.page offset max
  clearArea batch := writing fun n =>
    let (removed, area) := n.area.clear batch
    .ok (removed, { n with area })
  commit raw := writing fun n => do
    let (h, ledger) ← n.ledger.commit raw
    .ok (h, { n with ledger })

def resend (request : ResendRequest) : NodeOp Nat := backend.resend request

/-- Stages a batch that a peer has pushed. -/
def push (payloads : List Bytes) : NodeOp Unit := backend.push payloads

end Node

end TxRecovery
