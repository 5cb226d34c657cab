import TxRecovery.Payload.Wire

/-!
# Rows of the staging area

A row gathers the views of one transaction that peers have pushed, one version per sender and set of
recipient keys. A row that depends on nothing outside itself, or whose dependencies are all staged,
carries a stage; the staging pass also notes where versions contradict each other.
-/

namespace TxRecovery

namespace Staging

/-- Whose view a version is: its sender and the recipient keys it lists. -/
structure ViewKey where
  sender : PublicKey
  recipients : SortedSet PublicKey
deriving DecidableEq

namespace ViewKey

instance : Ord ViewKey :=
  ⟨fun a b => (compare a.sender b.sender).then (compare a.recipients b.recipients)⟩

instance : Std.TransOrd ViewKey :=
  inferInstanceAs (Std.TransCmp (compareLex (compareOn sender) (compareOn recipients)))

instance : Std.LawfulEqOrd ViewKey where
  eq_of_compare {a b} h := by
    have h : (compare a.sender b.sender).then (compare a.recipients b.recipients) = .eq := h
    rw [Ordering.then_eq_eq] at h
    have h1 := Std.LawfulEqOrd.eq_of_compare h.1
    have h2 := Std.LawfulEqOrd.eq_of_compare h.2
    cases a; cases b; cases h1; cases h2; rfl
  compare_self {a} := by
    show (compare a.sender a.sender).then (compare a.recipients a.recipients) = .eq
    simp

def ofPayload (p : Payload) : ViewKey := ⟨p.sender, .ofList p.recipients⟩

end ViewKey

structure Version where
  /-- The payload as it was received. -/
  raw : Bytes
  mode : PrivacyMode
  affected : SortedMap TxHash SecurityHash
deriving DecidableEq, Inhabited

def Version.ofPayload (raw : Bytes) (p : Payload) : Version := ⟨raw, p.mode, p.affected⟩

structure Row where
  hash : TxHash
  versions : SortedMap ViewKey Version
  stage : Option Nat
  issues : Option String
deriving DecidableEq, Inhabited

namespace Row

def empty (hash : TxHash) : Row := ⟨hash, .empty, none, none⟩

/-- Puts a version in the place of an older one of the same view. The row has to be staged again. -/
def merge (row : Row) (key : ViewKey) (version : Version) : Row :=
  { row with versions := row.versions.insert key version, stage := none, issues := none }

/-- The hashes that some version affects, the row's own aside. -/
def dependencies (row : Row) : SortedSet TxHash :=
  .ofList ((row.versions.values.flatMap fun v => v.affected.keys).filter (· ≠ row.hash))

end Row

/-- A way in which versions of a row may contradict each other. -/
inductive Disagreement where
  | affected
  | mode
deriving DecidableEq

def Disagreement.message : Disagreement → String
  | affected => "versions disagree on affected contract transactions"
  | mode => "versions disagree on privacy mode"

namespace Row

/-- The first version is held against each of the others. -/
def disagreements (row : Row) : List Disagreement :=
  match row.versions.values with
  | [] => []
  | first :: rest =>
    (if rest.any fun v => v.affected ≠ first.affected then [.affected] else []) ++
      (if rest.any fun v => v.mode ≠ first.mode then [.mode] else [])

def detectIssues (row : Row) : Option String :=
  match row.disagreements with
  | [] => none
  | ds => some ("; ".intercalate (ds.map Disagreement.message))

end Row

def ViewKey.format : Format ViewKey :=
  (PublicKey.format.pair (Format.sortedSet PublicKey.format)).convert
    (fun k => (k.sender, k.recipients)) (fun (sender, recipients) => { sender, recipients })

def Version.format : Format Version :=
  (Format.bytes.pair (PrivacyMode.format.pair affectedFormat)).convert
    (fun v => (v.raw, v.mode, v.affected)) (fun (raw, mode, affected) => { raw, mode, affected })

def Row.format : Format Row :=
  (TxHash.format.pair <| (Format.sortedMap ViewKey.format Version.format).pair <|
    (Format.option (Format.uint 8)).pair (Format.option Format.text)).convert
    (fun r => (r.hash, r.versions, r.stage, r.issues))
    (fun (hash, versions, stage, issues) => { hash, versions, stage, issues })

end Staging

end TxRecovery
