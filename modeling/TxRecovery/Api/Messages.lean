import TxRecovery.Node.State

/-!
# Messages of the node's interface

The bodies of requests and responses, and what else a node writes as JSON, each with the record that
reads it and the value that it is written as.
-/

namespace TxRecovery

open Json (Reading Record Value)

namespace PrivacyMode

def read : Reading PrivacyMode := .variant all name

def toJson (m : PrivacyMode) : Value := .string m.name

end PrivacyMode

namespace Outcome

def read : Reading Outcome := .variant all name

def toJson (o : Outcome) : Value := .string o.name

end Outcome

namespace SyncReport

def record : Record SyncReport where
  title := "struct SyncReport"
  fields := [
    .required "attempted" .u64 fun n r => { r with attempted := n },
    .required "violations" .u64 fun n r => { r with violations := n },
    .required "outcome" Outcome.read fun o r => { r with outcome := o }]
  blank := default
  closed := false
  defaults := false

def toJson (r : SyncReport) : Value := .object [
  ("attempted", .number r.attempted), ("violations", .number r.violations),
  ("outcome", r.outcome.toJson)]

end SyncReport

namespace PassSummary

def record : Record PassSummary where
  title := "struct PassStatus"
  fields := [
    .required "staging" Outcome.read fun o p => { p with staging := o },
    .required "sync" SyncReport.record.read fun r p => { p with sync := r },
    .nullable "cleaned" .u64 fun n p => { p with cleaned := n },
    .required "completedAt" .string fun s p => { p with completedAt := s }]
  blank := default
  closed := false
  defaults := false

def toJson (p : PassSummary) : Value := .object [
  ("staging", p.staging.toJson), ("sync", p.sync.toJson),
  ("cleaned", .ofOption .number p.cleaned), ("completedAt", .string p.completedAt)]

end PassSummary

/-- What a node says of itself. -/
structure NodeStatus where
  version : String
  resendMode : Bool
  transactions : Nat
  stagingRows : Nat
  stagedRows : Nat
  lastPass : Option PassSummary
  timestamp : String
deriving DecidableEq

namespace NodeStatus

def record : Record NodeStatus where
  title := "struct StatusResponse"
  fields := [
    .required "version" .string fun s n => { n with version := s },
    .required "resendMode" .bool fun b n => { n with resendMode := b },
    .required "transactionCount" .u64 fun k n => { n with transactions := k },
    .required "stagingRows" .u64 fun k n => { n with stagingRows := k },
    .required "stagedRows" .u64 fun k n => { n with stagedRows := k },
    .nullable "lastPass" PassSummary.record.read fun p n => { n with lastPass := p },
    .required "timestamp" .string fun s n => { n with timestamp := s }]
  blank := ⟨"", false, 0, 0, 0, none, ""⟩
  closed := false
  defaults := false

def toJson (n : NodeStatus) : Value := .object [
  ("version", .string n.version), ("resendMode", .bool n.resendMode),
  ("transactionCount", .number n.transactions), ("stagingRows", .number n.stagingRows),
  ("stagedRows", .number n.stagedRows), ("lastPass", .ofOption PassSummary.toJson n.lastPass),
  ("timestamp", .string n.timestamp)]

end NodeStatus

namespace ResendRequest

def record : Record ResendRequest where
  title := "struct ResendBatchRequest"
  fields := [
    .required "publicKey" .string fun s r => { r with target := s },
    .required "batchSize" .u32 fun n r => { r with batchSize := n }]
  blank := ⟨"", 0⟩
  closed := false
  defaults := false

def toJson (r : ResendRequest) : Value := .object [
  ("publicKey", .string r.target), ("batchSize", .number r.batchSize)]

end ResendRequest

/-- How many rows a resend request made the node examine. -/
structure ResendAnswer where
  total : Nat
deriving DecidableEq

namespace ResendAnswer

def record : Record ResendAnswer where
  title := "struct ResendBatchResponse"
  fields := [.required "total" .u64 fun n _ => ⟨n⟩]
  blank := ⟨0⟩
  closed := false
  defaults := false

def toJson (a : ResendAnswer) : Value := .object [("total", .number a.total)]

end ResendAnswer

/-- A pushed batch, its payloads as byte strings. -/
structure PushBatch where
  payloads : List Bytes
deriving DecidableEq

def bytesJson (bs : Bytes) : Value := .array (bs.map fun b => .number b.toNat)

def readBytes : Reading Bytes := .list .byte

namespace PushBatch

def record : Record PushBatch where
  title := "struct PushBatchRequest"
  fields := [.required "encodedPayloads" (.list readBytes) fun ps _ => ⟨ps⟩]
  blank := ⟨[]⟩
  closed := false
  defaults := false

def toJson (b : PushBatch) : Value := .object [
  ("encodedPayloads", .array (b.payloads.map bytesJson))]

end PushBatch

/-- A pushed batch as peers send it, its payloads in hexadecimal. -/
structure PushBody where
  payloads : List String
deriving DecidableEq

namespace PushBody

def record : Record PushBody where
  title := "struct PushBatchBody"
  fields := [.required "encodedPayloads" (.list .string) fun ps _ => ⟨ps⟩]
  blank := ⟨[]⟩
  closed := false
  defaults := false

def toJson (b : PushBody) : Value := .object [
  ("encodedPayloads", .array (b.payloads.map .string))]

/-- The payloads, once all of them are read. -/
def decode (b : PushBody) : Except Hex.Fault (List Bytes) :=
  b.payloads.mapM fun s => Hex.decode (Utf8.encode s)

end PushBody

namespace PublicKey

def record : Record PublicKey where
  title := "struct PublicKey"
  fields := [.required "bytes" (.block 32) fun b _ => ⟨b⟩]
  blank := default
  closed := false
  defaults := false

def toJson (k : PublicKey) : Value := .object [("bytes", bytesJson k.bytes)]

end PublicKey

/-- An object key is text and a hash is not, so only the empty map can be read or written. -/
def readAffected : Reading (SortedMap TxHash SecurityHash)
  | .object [] ending => do
    Json.flawless ending
    .ok .empty
  | .object ((.ok name, _) :: _) _ =>
    Json.mismatch (.invalidType (.string name) "a sequence")
  | .object ((.error f, _) :: _) _ => Json.malformed f
  | .nameless _ => Json.malformed .expectedName
  | t => t.wrongType "a map"

namespace Payload

def record : Record Payload where
  title := "struct EncodedPayload"
  fields := [
    .required "sender_key" PublicKey.record.read fun k p => { p with sender := k },
    .required "cipher_text" readBytes fun bs p => { p with ciphertext := bs },
    .required "cipher_text_nonce" (.block 12) fun b p => { p with cipherNonce := b },
    .required "recipient_boxes" (.list readBytes) fun bs p => { p with boxes := bs },
    .required "recipient_nonce" (.block 12) fun b p => { p with boxNonce := b },
    .required "recipient_keys" (.list PublicKey.record.read) fun ks p =>
      { p with recipients := ks },
    .required "privacy_mode" PrivacyMode.read fun m p => { p with mode := m },
    .required "affected_contract_transactions" readAffected fun m p => { p with affected := m },
    .required "exec_hash" readBytes fun bs p => { p with execHash := bs }]
  blank := default
  closed := false
  defaults := false

/-- The map of affected transactions has no JSON form unless it is empty. -/
def toJson (p : Payload) : Value := .object [
  ("sender_key", p.sender.toJson), ("cipher_text", bytesJson p.ciphertext),
  ("cipher_text_nonce", bytesJson p.cipherNonce.toList),
  ("recipient_boxes", .array (p.boxes.map bytesJson)),
  ("recipient_nonce", bytesJson p.boxNonce.toList),
  ("recipient_keys", .array (p.recipients.map PublicKey.toJson)),
  ("privacy_mode", p.mode.toJson), ("affected_contract_transactions", .object []),
  ("exec_hash", bytesJson p.execHash)]

end Payload

end TxRecovery
