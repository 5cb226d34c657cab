import TxRecovery.Ledger.Basic

/-!
# Committing a payload

`Ledger.commit` is how synchronisation writes to the ledger. It stores the payload and tells nobody.

A payload that is not standard private needs every transaction it affects in the ledger, in its own
privacy mode; a standard private one must not affect a known transaction of another mode; one with
state validation must carry an execution hash; and a transaction keeps the mode it was stored with.
What breaks one of these is refused and changes nothing.

A second view of a stored transaction adds the recipients it pairs with a box, behind those already
listed, and replaces nothing.
-/

namespace TxRecovery

inductive PrivacyViolation where
  | noExecHash
  | standardAffects (found : PrivacyMode) (affected : TxHash)
  | unknownAffected (affected : TxHash)
  | affectedMode (affected : TxHash) (found expected : PrivacyMode)
  | storedMode (hash : TxHash) (found : PrivacyMode)
deriving DecidableEq

def PrivacyViolation.message : PrivacyViolation → String
  | noExecHash => "private state validation payload has no execution hash"
  | standardAffects found h =>
    s!"standard private payload affects {found.name} transaction {h.toBase64}"
  | unknownAffected h => s!"affected transaction {h.toBase64} is not known locally"
  | affectedMode h found expected =>
    s!"affected transaction {h.toBase64} has privacy mode {found.name}, expected {expected.name}"
  | storedMode h found =>
    s!"transaction {h.toBase64} already stored with privacy mode {found.name}"

inductive CommitError where
  | privacy (violation : PrivacyViolation)
  | payload (error : PayloadError)
  | db (error : DbError)
deriving DecidableEq

def CommitError.message : CommitError → String
  | privacy v => "privacy violation: " ++ v.message
  | payload e => e.message
  | db e => e.message

namespace Ledger

/-- The payload stored under a hash. -/
def payload? (l : Ledger) (h : TxHash) : Except CommitError (Option Payload) := do
  match ← (l.find? h).mapError .db with
  | some t => (Payload.decode t.raw).mapError .payload |>.map some
  | none => .ok none

/-- Whether a payload of this mode may affect the transaction `h`. -/
def checkAffected (l : Ledger) (mode : PrivacyMode) (h : TxHash) : Except CommitError Unit := do
  let stored ← l.payload? h
  match mode.isStandard, stored with
  | true, some s =>
    if s.mode.isStandard then .ok () else .error (.privacy (.standardAffects s.mode h))
  | true, none => .ok ()
  | false, none => .error (.privacy (.unknownAffected h))
  | false, some s =>
    if s.mode = mode then .ok () else .error (.privacy (.affectedMode h s.mode mode))

def checkPrivacy (l : Ledger) (p : Payload) : Except CommitError Unit :=
  if p.mode = .stateValidation ∧ p.execHash = [] then .error (.privacy .noExecHash)
  else p.affected.keys.forM (l.checkAffected p.mode)

end Ledger

namespace Payload

/-- Lists a recipient and its box at the end, unless the key is listed already. -/
def addRecipient (p : Payload) (key : PublicKey) (box : Bytes) : Payload :=
  if p.hasRecipient key then p
  else { p with recipients := p.recipients ++ [key], boxes := p.boxes ++ [box] }

/-- Adds the recipients that `view` pairs with a box. -/
def mergeRecipients (p view : Payload) : Payload :=
  (view.recipients.zip view.boxes).foldl (fun p e => p.addRecipient e.1 e.2) p

end Payload

namespace Ledger

/-- Stores `raw`, or merges it into the row of its transaction. Answers with the hash. -/
def commit (l : Ledger) (raw : Bytes) : Except CommitError (TxHash × Ledger) := do
  let p ← (Payload.decode raw).mapError .payload
  l.checkPrivacy p
  match ← l.payload? p.hash with
  | some stored =>
    if stored.mode ≠ p.mode then .error (.privacy (.storedMode p.hash stored.mode))
    else
      let merged := stored.mergeRecipients p
      if merged = stored then .ok (p.hash, l)
      else .ok (p.hash, l.save ⟨p.hash, merged.encode⟩)
  | none => .ok (p.hash, l.save ⟨p.hash, raw⟩)

end Ledger

end TxRecovery
