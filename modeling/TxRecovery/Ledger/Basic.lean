import TxRecovery.Payload.Wire

/-!
# The ledger

Every private transaction that a node knows, one row per transaction hash. Rows are kept in their
binary form and read back on use, so a damaged row is an error of the operation that meets it.
-/

namespace TxRecovery

inductive DbError where
  | serialization (detail : String)
  | notFound (key : String)
deriving DecidableEq

def DbError.message : DbError → String
  | serialization d => "serialization error: " ++ d
  | notFound k => "key not found: " ++ k

/-- Values by key, both as stored; keys ascend bytewise. -/
abbrev Tree := SortedMap Bytes Bytes

/-- Reads a stored value. -/
def decodeStored {α : Type} (f : Format α) (bs : Bytes) : Except DbError α :=
  (f.decode bs).mapError fun e => .serialization e.message

structure StoredTx where
  hash : TxHash
  raw : Bytes
deriving DecidableEq, Inhabited

def StoredTx.format : Format StoredTx :=
  (TxHash.format.pair Format.bytes).convert (fun t => (t.hash, t.raw))
    (fun (hash, raw) => { hash, raw })

structure Ledger where
  tree : Tree

namespace Ledger

def empty : Ledger := ⟨.empty⟩

def size (l : Ledger) : Nat := l.tree.size

/-- At most `max` rows from the one at `offset` on, in hash order. -/
def page (l : Ledger) (offset max : Nat) : Except DbError (List StoredTx) :=
  ((l.tree.values.drop offset).take max).mapM (decodeStored StoredTx.format)

def save (l : Ledger) (t : StoredTx) : Ledger :=
  ⟨l.tree.insert t.hash.bytes (StoredTx.format.write t)⟩

def find? (l : Ledger) (h : TxHash) : Except DbError (Option StoredTx) :=
  match l.tree.get? h.bytes with
  | some bs => (decodeStored StoredTx.format bs).map some
  | none => .ok none

end Ledger

end TxRecovery
