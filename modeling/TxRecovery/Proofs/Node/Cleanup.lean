import TxRecovery.Proofs.Node.Sound

/-!
# Emptying the staging area

A cleanup erases the first keys of the area, round by round, until it finds none. A round that finds keys erases as
many as a batch takes, or all that are left, and a batch takes one at least. So the rounds are as many as full batches
fit into the area, and one more for the rest (`clearWithin_eq`), and a cleanup comes to its end with an empty area and
the number of rows there were, whatever the rows are and whether they can be read or not (`cleanup_removes_all`).
-/

namespace TxRecovery

namespace Staging.Area

/-- Removes rows as `clearTree` does, but in at most `rounds` rounds; `none` if rows are left by then. -/
def clearWithin (n : Nat) : Nat → Tree → Nat → Option (Nat × Tree)
  | 0, tree, removed =>
    match tree.keys.take (n + 1) with
    | [] => some (removed, tree)
    | _ :: _ => none
  | rounds + 1, tree, removed =>
    match tree.keys.take (n + 1) with
    | [] => some (removed, tree)
    | k :: ks => clearWithin n rounds ((k :: ks).foldl SortedMap.erase tree) (removed + (ks.length + 1))

variable {n : Nat} {tree : Tree} {k : Bytes} {ks : List Bytes}

theorem clearWithin_of_nil (h : tree.keys.take (n + 1) = []) (rounds removed : Nat) :
    clearWithin n rounds tree removed = some (removed, tree) := by
  cases rounds <;> rw [clearWithin, h]

theorem clearWithin_eq (n rounds : Nat) (tree : Tree) (removed : Nat) : clearWithin n rounds tree removed =
    if tree.size ≤ rounds * (n + 1) then some (removed + tree.size, .empty) else none := by
  induction rounds generalizing tree removed with
  | zero =>
    cases h : tree.keys.take (n + 1) with
    | nil =>
      rw [clearWithin_of_nil h, eq_empty_of_take h]
      rfl
    | cons k ks =>
      have hrows : ¬ tree.size ≤ 0 * (n + 1) := by
        have := length_of_take h
        omega
      rw [clearWithin, h, if_neg hrows]
  | succ rounds ih =>
    cases h : tree.keys.take (n + 1) with
    | nil =>
      rw [clearWithin_of_nil h, eq_empty_of_take h]
      exact (if_pos (Nat.zero_le _)).symm
    | cons k ks =>
      have hcount : removed + (ks.length + 1) + (tree.size - (n + 1)) = removed + tree.size := by
        have := length_of_take h
        omega
      have hfit : tree.size - (n + 1) ≤ rounds * (n + 1) ↔ tree.size ≤ (rounds + 1) * (n + 1) := by
        rw [Nat.add_mul, Nat.one_mul, Nat.sub_le_iff_le_add]
      rw [clearWithin, h]
      simp only [ih, size_of_take h, hcount, hfit]

end Staging.Area

namespace Node

/-- A cleanup answers with the number of rows there were, and leaves the node as it is but for the area, which is
empty. It is done within `rounds` rounds exactly if that many batches are enough for the rows, where a batch of none
counts as a batch of one. -/
theorem cleanup_removes_all (n : Node) (batch : Nat) :
    (backend.cleanup batch).eval n = (.ok n.area.size, { n with area := .empty }) ∧
    n.area.clear batch = (n.area.size, .empty) ∧
    ∀ rounds, Staging.Area.clearWithin (batch - 1) rounds n.area.tree 0 =
      if n.area.size ≤ rounds * max batch 1 then some (n.area.size, .empty) else none := by
  refine ⟨eval_backend_cleanup n batch, n.area.clear_eq batch, fun rounds => ?_⟩
  have hbatch : batch - 1 + 1 = max batch 1 := by omega
  rw [Staging.Area.clearWithin_eq, hbatch, Nat.zero_add]
  rfl

end Node

end TxRecovery
