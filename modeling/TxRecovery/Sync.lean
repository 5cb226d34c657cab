import TxRecovery.Backend
import TxRecovery.Outcome

/-!
# Taking in what peers push

Pushed payloads are staged one by one, a staging pass orders them by dependency depth, and a
synchronisation commits every version of every staged row in that order. A version that the commit
path refuses on grounds of privacy is counted and passed over; any other failure ends the run.
-/

namespace TxRecovery

namespace Backend

variable {σ : Type}

/-- Stages one pushed payload under its hash and view key. -/
def stagePayload (b : Backend σ) (raw : Bytes) : Op ResendError σ Unit := do
  let p ← Op.ofExcept ((Payload.decode raw).mapError .payload)
  let _ ← (b.upsert p.hash (.ofPayload p) (.ofPayload raw p)).mapError .db

/-- Stages a pushed batch in order; a refused payload ends it. -/
def push (b : Backend σ) (payloads : List Bytes) : Op ResendError σ Unit :=
  payloads.forM b.stagePayload

/-- Runs a staging pass and says how much of the area is staged. -/
def performStaging (b : Backend σ) (batch : Nat) : Op ResendError σ Outcome := do
  (b.assignStages batch).mapError .db
  let total ← b.areaSize.mapError .db
  let staged ← b.countStaged.mapError .db
  pure (.ofStaging total staged)

def commitVersion (b : Backend σ) (tally : Tally) (v : Staging.Version) :
    Op ResendError σ Tally := do
  match ← (b.commit v.raw).attempt with
  | .ok _ => pure tally.accept
  | .error (.privacy _) => pure tally.refuse
  | .error e => throw (.commit e)

def commitRow (b : Backend σ) (tally : Tally) (row : Staging.Row) : Op ResendError σ Tally :=
  row.versions.values.foldlM b.commitVersion tally

/-- Commits the staged rows from `offset` on, page by page, as long as fewer than `count` are done
and a page has rows. -/
def commitFrom (b : Backend σ) (pageSize count offset : Nat) (tally : Tally) :
    Op ResendError σ Tally :=
  if _h : offset < count then do
    match ← (b.stagedPage offset pageSize).mapError .db with
    | [] => pure tally
    | row :: rows =>
      let tally ← (row :: rows).foldlM b.commitRow tally
      commitFrom b pageSize count (offset + (rows.length + 1)) tally
  else pure tally
termination_by count - offset

/-- Commits every staged version, by stage and hash. -/
def sync (b : Backend σ) (pageSize : Nat) : Op ResendError σ Tally := do
  let count ← b.areaSize.mapError .db
  let tally ← b.commitFrom (max pageSize 1) count 0 .zero
  let _ ← b.areaSize.mapError .db
  pure tally

def cleanup (b : Backend σ) (batch : Nat) : Op ResendError σ Nat :=
  (b.clearArea batch).mapError .db

end Backend

end TxRecovery
