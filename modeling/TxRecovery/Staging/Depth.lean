import TxRecovery.Staging.Row

/-!
# Stages by dependency depth

Stages are computed in rounds. Round one stages the rows without dependencies, round `n` those whose
dependencies were all staged before it. The first round that stages nothing ends the computation, so
rows with a missing dependency, or one that comes back to the row, stay without a stage.
-/

namespace TxRecovery

namespace Staging

abbrev Stages := SortedMap TxHash Nat

/-- The rows a round stages: those not staged yet whose dependencies all are. -/
def ready (rows : List Row) (stages : Stages) : List Row :=
  rows.filter fun row =>
    !stages.contains row.hash && row.dependencies.toList.all stages.contains

def stageAll (round : Nat) (rows : List Row) (stages : Stages) : Stages :=
  rows.foldl (fun s row => s.insert row.hash round) stages

/-- The rows still to be staged. -/
def pending (rows : List Row) (stages : Stages) : List Row :=
  rows.filter fun row => !stages.contains row.hash

theorem contains_stageAll {round : Nat} {rows : List Row} {stages : Stages} {h : TxHash} :
    (stageAll round rows stages).contains h = true ↔
      (∃ row ∈ rows, row.hash = h) ∨ stages.contains h = true := by
  induction rows generalizing stages with
  | nil => simp [stageAll]
  | cons r rows ih =>
    rw [stageAll, List.foldl_cons, ← stageAll, ih, SortedMap.contains_insert]
    simp only [Bool.or_eq_true, decide_eq_true_eq, List.mem_cons, exists_eq_or_imp]
    constructor
    · rintro (h | h | h)
      · exact .inl (.inr h)
      · exact .inl (.inl h.symm)
      · exact .inr h
    · rintro ((h | h) | h)
      · exact .inr (.inl h.symm)
      · exact .inl h
      · exact .inr (.inr h)

theorem length_pending_stageAll_lt {round : Nat} {rows : List Row} {stages : Stages} {r : Row}
    {rs : List Row} (h : ready rows stages = r :: rs) :
    (pending rows (stageAll round (r :: rs) stages)).length < (pending rows stages).length := by
  have hr : r ∈ ready rows stages := h ▸ List.mem_cons_self
  simp only [ready, List.mem_filter, Bool.and_eq_true, Bool.not_eq_true'] at hr
  have hsub : pending rows (stageAll round (r :: rs) stages) =
      (pending rows stages).filter fun row =>
        !(stageAll round (r :: rs) stages).contains row.hash := by
    rw [pending, pending, List.filter_filter]
    refine List.filter_congr fun row _ => ?_
    cases hs : stages.contains row.hash
    · simp
    · have : (stageAll round (r :: rs) stages).contains row.hash = true :=
        contains_stageAll.2 (.inr hs)
      simp [this]
  rw [hsub]
  refine List.length_filter_lt_length_iff_exists.2 ⟨r, ?_, ?_⟩
  · simp [pending, hr.1, hr.2.1]
  · have : (stageAll round (r :: rs) stages).contains r.hash = true :=
      contains_stageAll.2 (.inl ⟨r, List.mem_cons_self, rfl⟩)
    simp [this]

/-- Goes on from round `round`, with the stages of the rounds before it. -/
def stagesFrom (rows : List Row) (round : Nat) (stages : Stages) : Stages :=
  match _h : ready rows stages with
  | [] => stages
  | r :: rs => stagesFrom rows (round + 1) (stageAll round (r :: rs) stages)
termination_by (pending rows stages).length
decreasing_by exact length_pending_stageAll_lt _h

def stages (rows : List Row) : Stages := stagesFrom rows 1 .empty

end Staging

end TxRecovery
