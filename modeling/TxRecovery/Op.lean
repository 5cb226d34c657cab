/-!
# Operations

An operation works on a state and either answers or fails. The state it leaves behind counts in both
cases: what was written before a failure stays written.
-/

namespace TxRecovery

abbrev Op (ε σ α : Type) := ExceptT ε (StateM σ) α

namespace Op

variable {ε ε' σ α : Type}

def ofExcept (e : Except ε α) : Op ε σ α := ExceptT.mk (pure e)

def mapError (f : ε → ε') (x : Op ε σ α) : Op ε' σ α := ExceptT.adapt f x

/-- Runs an operation and hands its failure over as a value. -/
def attempt (x : Op ε σ α) : Op ε' σ (Except ε α) := ExceptT.lift x.run

/-- The answer and the state left behind. -/
def eval (x : Op ε σ α) (s : σ) : Except ε α × σ := x.run.run s

end Op

end TxRecovery
