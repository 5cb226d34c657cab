import TxRecovery.Api.Router
import TxRecovery.Files.Tree
import TxRecovery.Main
import TxRecovery.Proofs.Collections
import TxRecovery.Proofs.Evaluation
import TxRecovery.Proofs.Text.Utf8
import TxRecovery.Proofs.Wire.Lawful
import TxRecovery.Proofs.Wire.Local
import TxRecovery.Proofs.Text.Armor
import TxRecovery.Proofs.Text.Keys
import TxRecovery.Proofs.Json.RoundTrip
import TxRecovery.Proofs.Cipher.Gcm
import TxRecovery.Proofs.Keyring
import TxRecovery.Proofs.Payload.Codec
import TxRecovery.Proofs.Payload.Canonical
import TxRecovery.Proofs.Payload.Merge
import TxRecovery.Proofs.Keyring.Opening
import TxRecovery.Proofs.Payload.Parts
import TxRecovery.Proofs.Payload.History
import TxRecovery.Proofs.Ledger.Lookup
import TxRecovery.Proofs.Ledger.Commit
import TxRecovery.Proofs.Ledger.Reassembly
import TxRecovery.Proofs.Ledger.Runs
import TxRecovery.Proofs.Ledger.Dependencies
import TxRecovery.Proofs.Ledger.Replay
import TxRecovery.Proofs.Ledger.Rows
import TxRecovery.Proofs.Staging.Depth
import TxRecovery.Proofs.Staging.Row
import TxRecovery.Proofs.Staging.Stored
import TxRecovery.Proofs.Staging.Contents
import TxRecovery.Proofs.Staging.Convergence
import TxRecovery.Proofs.Staging.Area
import TxRecovery.Proofs.Staging.Trusted
import TxRecovery.Proofs.Staging.Order
import TxRecovery.Proofs.Staging.Delivery
import TxRecovery.Proofs.Staging.Upserts
import TxRecovery.Proofs.Sync
import TxRecovery.Proofs.Resend.Entitlement
import TxRecovery.Proofs.Resend.Batches
import TxRecovery.Proofs.Resend.Published
import TxRecovery.Proofs.Resend.Disclosure
import TxRecovery.Proofs.Node.Evaluation
import TxRecovery.Proofs.Node.Intake
import TxRecovery.Proofs.Node.Sound
import TxRecovery.Proofs.Node.Cleanup
import TxRecovery.Proofs.Node.Pass
import TxRecovery.Proofs.Node.Reachable
import TxRecovery.Proofs.Node.KeepsData
import TxRecovery.Proofs.Node.CommitOrder
import TxRecovery.Proofs.Node.Stages
import TxRecovery.Proofs.Node.Resend
import TxRecovery.Proofs.Node.Delivery
import TxRecovery.Proofs.Node.Recovery
import TxRecovery.Proofs.Node.Relay
import TxRecovery.Proofs.Api.Push
import TxRecovery.Proofs.Node.Convergence
import TxRecovery.Proofs.Ledger.Growth
import TxRecovery.Proofs.Node.History
import TxRecovery.Proofs.Node.Progress
import TxRecovery.Proofs.Staging.Arrivals
import TxRecovery.Proofs.Node.Interleaving
import TxRecovery.Proofs.Node.Account
import TxRecovery.Proofs.Api.Metrics
import TxRecovery.Proofs.Ledger.Settled
import TxRecovery.Proofs.Ledger.Joining
import TxRecovery.Proofs.Staging.Chains
import TxRecovery.Proofs.Node.Depths
import TxRecovery.Proofs.Notes
import TxRecovery.Proofs.Staging.Visits
import TxRecovery.Proofs.Node.SyncAgain
import TxRecovery.Proofs.Ledger.Verdict
import TxRecovery.Proofs.Ledger.SelfReference
import TxRecovery.Proofs.Ledger.Sealing
import TxRecovery.Proofs.Node.Commit
import TxRecovery.Proofs.Api.Refusals
