/-!
# Outcomes of a pass

What a staging pass or a synchronisation came to, as told by its counters.
-/

namespace TxRecovery

inductive Outcome where
  | success
  | partialSuccess
  | failure
deriving DecidableEq, Inhabited

namespace Outcome

def all : List Outcome := [success, partialSuccess, failure]

def name : Outcome → String
  | success => "SUCCESS"
  | partialSuccess => "PARTIAL_SUCCESS"
  | failure => "FAILURE"

/-- Of `total` rows, `staged` carry a stage. -/
def ofStaging (total staged : Nat) : Outcome :=
  if staged = 0 then failure else if staged = total then success else partialSuccess

/-- Of `attempted` versions, `violations` were refused. An empty synchronisation is a failure. -/
def ofSync (attempted violations : Nat) : Outcome :=
  if violations = 0 ∧ 0 < attempted then success
  else if violations = attempted then failure
  else partialSuccess

end Outcome

/-- The counters of a synchronisation. -/
structure Tally where
  attempted : Nat
  violations : Nat
deriving DecidableEq

namespace Tally

def zero : Tally := ⟨0, 0⟩

def accept (t : Tally) : Tally := { t with attempted := t.attempted + 1 }

def refuse (t : Tally) : Tally := ⟨t.attempted + 1, t.violations + 1⟩

def committed (t : Tally) : Nat := t.attempted - t.violations

def outcome (t : Tally) : Outcome := .ofSync t.attempted t.violations

end Tally

/-- A tally with its outcome, as nodes report it. -/
structure SyncReport where
  attempted : Nat
  violations : Nat
  outcome : Outcome
deriving DecidableEq, Inhabited

def SyncReport.ofTally (t : Tally) : SyncReport := ⟨t.attempted, t.violations, t.outcome⟩

end TxRecovery
