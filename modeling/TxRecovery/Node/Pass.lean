import TxRecovery.Node.State

/-!
# Recovery passes

A pass drains the staging area: a staging pass, a synchronisation, and a cleanup if every row was
staged, every version committed, and the area still holds the rows that were staged, all of them
staged still. Whatever else is true of the area keeps it for a later pass.

Other requests may reach the node between the steps of a pass; `Arrivals` says which.
-/

namespace TxRecovery

namespace Node

/-- Counts the rows of the staging area into the gauge. -/
def refreshGauge : NodeOp Unit :=
  modify fun n => n.count fun m => { m with stagingRows := n.area.size }

/-- What reaches a node while a pass runs, by the step after which it does. -/
structure Arrivals where
  afterStaging : NodeOp Unit
  afterCount : NodeOp Unit
  afterSync : NodeOp Unit
  afterCheck : NodeOp Unit

def Arrivals.none : Arrivals := ⟨pure (), pure (), pure (), pure ()⟩

/-- A staging pass that lets `arrival` happen before it is counted. -/
def stageThen (arrival : NodeOp Unit) : NodeOp Outcome := do
  let outcome ← backend.performStaging (← get).settings.stagingBatchSize
  arrival
  modify fun n => n.count fun m => { m with stagingPasses := m.stagingPasses + 1 }
  pure outcome

/-- A synchronisation that lets `arrival` happen before it is counted. -/
def syncThen (arrival : NodeOp Unit) : NodeOp Tally := do
  let tally ← backend.sync (← get).settings.syncPageSize
  arrival
  modify fun n => n.count fun m =>
    { m with
      versionsCommitted := m.versionsCommitted + tally.committed
      privacyViolations := m.privacyViolations + tally.violations }
  pure tally

def stage : NodeOp Outcome := stageThen (pure ())

def sync : NodeOp Tally := syncThen (pure ())

/-- Empties the staging area. -/
def cleanup : NodeOp Nat := do
  let removed ← backend.cleanup (← get).settings.cleanupBatchSize
  refreshGauge
  pure removed

def countStaged : NodeOp Nat := backend.countStaged.mapError .db

/-- Whether the area holds exactly as many rows as were staged, all of them staged still. -/
def areaUnchanged (staged : Nat) : NodeOp Bool := do
  if (← backend.areaSize.mapError .db) = staged then
    pure ((← countStaged) = staged)
  else pure false

/-- One pass, with what arrives while it runs. An empty area is left alone. -/
def runPassWith (now : String) (arrivals : Arrivals) : NodeOp (Option PassSummary) := do
  if (← backend.areaSize.mapError .db) = 0 then return none
  let staging ← stageThen arrivals.afterStaging
  let staged ← countStaged
  arrivals.afterCount
  let tally ← syncThen arrivals.afterSync
  let settled ←
    if staging = .success ∧ tally.outcome = .success then areaUnchanged staged else pure false
  arrivals.afterCheck
  let cleaned ←
    if settled then some <$> cleanup
    else do
      refreshGauge
      pure none
  let summary : PassSummary := ⟨staging, .ofTally tally, cleaned, now⟩
  modify fun n =>
    let n := n.count fun m => { m with recoveryPasses := m.recoveryPasses + 1 }
    { n with lastPass := some summary }.emit (.passCompleted staging tally.outcome cleaned)
  pure (some summary)

def runPass (now : String) : NodeOp (Option PassSummary) := runPassWith now .none

/-- Runs `n` passes one after the other; a failed one is as good as none. -/
def runPasses (now : String) : (n : Nat) → StateM Node Unit
  | 0 => pure ()
  | n + 1 => do
    let _ ← (runPass now).run
    runPasses now n

end Node

end TxRecovery
