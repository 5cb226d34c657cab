import TxRecovery.Json.Shape
import TxRecovery.Json.Value
import TxRecovery.Outcome

/-!
# Events

What a node tells those who listen: a batch of views for a peer, and the end of a recovery pass. On
the wire an event is a JSON object whose field `type` names its kind. Since that field may come last,
the others are kept until it is known, and read from what was kept.
-/

namespace TxRecovery

inductive Event where
  /-- Views for the peer that owns the key `recipient`, in hexadecimal. -/
  | outboundBatch (recipient : String) (payloads : List String)
  | passCompleted (staging sync : Outcome) (cleaned : Option Nat)
deriving DecidableEq

namespace Event

inductive Kind where
  | outboundBatch
  | passCompleted
deriving DecidableEq

def Kind.all : List Kind := [outboundBatch, passCompleted]

def Kind.name : Kind → String
  | outboundBatch => "outbound_batch"
  | passCompleted => "pass_completed"

def toJson : Event → Json.Value
  | outboundBatch recipient payloads => .object [
    ("type", .string Kind.outboundBatch.name), ("recipient", .string recipient),
    ("encodedPayloads", .array (payloads.map .string))]
  | passCompleted staging sync cleaned => .object [
    ("type", .string Kind.passCompleted.name), ("staging", .string staging.name),
    ("sync", .string sync.name), ("cleaned", .ofOption .number cleaned)]

open Json (Fault Flaw Found Reading Record Tree)

/-- Null, or an object without fields, in a value that was kept. -/
def keptUnit : Reading Unit
  | .null => .ok ()
  | .object [] _ => .ok ()
  | t => t.wrongType "unit"

/-- An outcome in a value that was kept. -/
def keptOutcome : Reading Outcome
  | .string (.ok s) => Reading.named Outcome.all Outcome.name s
  | .object [(.ok key, value)] _ => do
    let o ← Reading.named Outcome.all Outcome.name key
    keptUnit value
    .ok o
  | .object _ _ => Json.mismatch (.invalidValue .map "map with a single key")
  | t => t.wrongType "string or map"

def batchRecord : Record (String × List String) where
  title := "struct variant NodeEvent::OutboundBatch"
  fields := [
    .required "recipient" .string fun s p => (s, p.2),
    .required "encodedPayloads" (.list .string) fun ss p => (p.1, ss)]
  blank := ("", [])
  closed := false
  defaults := false

def passRecord : Record (Outcome × Outcome × Option Nat) where
  title := "struct variant NodeEvent::PassCompleted"
  fields := [
    .required "staging" keptOutcome fun o p => (o, p.2),
    .required "sync" keptOutcome fun o p => (p.1, o, p.2.2),
    .nullable "cleaned" .u64 fun n p => (p.1, p.2.1, n)]
  blank := (.failure, .failure, none)
  closed := false
  defaults := false

/-- What an event carries besides its kind. -/
inductive Content where
  | fields (fs : List (Except Flaw String × Tree))
  | items (ts : List Tree)

def readContent {α : Type} (r : Record α) : Content → Except Fault α
  | .fields fs => r.ofFields [] r.blank fs none
  | .items ts => do
    let (a, rest) ← r.ofItems 0 r.fields r.blank ts none
    if rest.isEmpty then .ok a
    else
      let n := r.fields.length
      Json.mismatch (.invalidLength ts.length s!"{n} elements in sequence")

def ofContent (kind : Kind) (content : Content) : Except Fault Event :=
  match kind with
  | .outboundBatch => (readContent batchRecord content).map fun p => .outboundBatch p.1 p.2
  | .passCompleted => (readContent passRecord content).map fun p => .passCompleted p.1 p.2.1 p.2.2

def readKind : Reading Kind
  | .string (.ok s) => Reading.named Kind.all Kind.name s
  | t => t.wrongType "variant identifier"

/-- How deep the values kept from an event may nest. -/
def keptDepth : Nat := 126

/-- Looks for the kind among the fields and keeps the others. -/
def splitFields : (kind : Option Kind) → (kept : List (Except Flaw String × Tree)) →
    List (Except Flaw String × Tree) → (ending : Option Flaw) →
    Except Fault (Kind × List (Except Flaw String × Tree))
  | _, _, [], some f => Json.malformed f
  | some kind, kept, [], none => .ok (kind, kept)
  | none, _, [], none => Json.mismatch (.missingField "type")
  | _, _, (.error f, _) :: _, _ => Json.malformed f
  | kind, kept, (.ok name, value) :: rest, ending =>
    if name = "type" then
      match kind with
      | some _ => Json.mismatch (.duplicateField "type")
      | none => do
        let kind ← readKind value
        splitFields (some kind) kept rest ending
    else do
      value.keep keptDepth
      splitFields kind (kept ++ [(.ok name, value)]) rest ending

def read : Reading Event
  | .object fields ending => do
    let (kind, kept) ← splitFields none [] fields ending
    ofContent kind (.fields kept)
  | .nameless _ => Json.malformed .expectedName
  | .array [] ending => do
    Json.flawless ending
    Json.mismatch (.missingField "type")
  | .array (t :: ts) ending => do
    let kind ← readKind t
    Tree.keepItems keptDepth ts
    Json.flawless ending
    ofContent kind (.items ts)
  | t => t.wrongType "internally tagged enum NodeEvent"

end Event

end TxRecovery
