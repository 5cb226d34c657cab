import TxRecovery.Proofs.Node.Stages
import TxRecovery.Proofs.Staging.Chains

/-!
# Stages after a staging pass

A staging pass over a reachable node gives each row the stage that its dependencies make it, and no other
(`performStaging_assigns_depths`). Nothing of it comes from the stages of before: a row's depth is told by its versions
and those of the rows that it reaches.
-/

namespace TxRecovery

namespace Node

open Staging (Area Contents Row Version ViewKey)

variable {n m : Node} {c : Contents} {outcome : Outcome} {rows staged : List (Bytes × Row)}

/-- What of a row no staging pass touches. -/
def untouched (e : Bytes × Row) : Bytes × TxHash × SortedMap ViewKey Version :=
  (e.1, e.2.hash, e.2.versions)

theorem untouched_restage (c : Contents) :
    (c.restage.entries.map fun e => (e.1.bytes, e.2)).map untouched =
      (c.entries.map fun e => (e.1.bytes, e.2)).map untouched := by
  simp only [Contents.restage, SortedMap.mapValues, List.map_map]
  rfl

/-- The node `m` is left by a staging pass over `n`, whose area held `rows` and now holds `staged`. -/
structure Assigned (n : Node) (rows : List (Bytes × Row)) (outcome : Outcome) (m : Node)
    (staged : List (Bytes × Row)) : Prop where
  before : n.area.rows = .ok rows
  after : m.area.rows = .ok staged
  frame : m = { n with area := m.area }
  /-- Keys, hashes and versions are what they were. -/
  untouched : staged.map untouched = rows.map untouched
  distinct : staged.Pairwise fun e e' => e.2.hash ≠ e'.2.hash
  depth : ∀ e ∈ staged, e.2.AtDepth (staged.map Prod.snd)
  reported : ∀ e ∈ staged, e.2.Reported
  success_iff : outcome = .success ↔ (∀ e ∈ staged, e.2.stage.isSome) ∧ staged ≠ []
  failure_iff : outcome = .failure ↔ ∀ e ∈ staged, ¬ e.2.Free

/-- An area that holds the rows of `c` with their new stages is what a staging pass leaves of one that holds `c`. -/
theorem Sound.assigned {area : Area} (hc : n.Sound c) (hholds : area.Holds c.restage) :
    Assigned n (c.entries.map fun e => (e.1.bytes, e.2)) (.ofStaging c.size c.stageable) { n with area }
      (c.restage.entries.map fun e => (e.1.bytes, e.2)) := by
  have hkeyed := hc.faithful.keyed
  have hvalues := hholds.map_snd_rows hholds.rows
  have hmem : ∀ e ∈ c.restage.entries.map fun e => (e.1.bytes, e.2), e.2 ∈ c.restage.values := fun e he =>
    hvalues ▸ List.mem_map_of_mem he
  refine ⟨hc.holds.rows, hholds.rows, rfl, untouched_restage c, ?_, ?_, ?_, ?_, ?_⟩
  · have hdistinct := hkeyed.restage.pairwise_hash_ne
    rw [← hvalues, List.pairwise_map] at hdistinct
    exact hdistinct
  · rw [hvalues]
    exact fun e he => hkeyed.atDepth_restage (hmem e he)
  · intro e he
    obtain ⟨row, -, hrow⟩ := Contents.exists_of_mem_restage (hmem e he)
    exact Row.reported_of_issues (hrow ▸ rfl)
  · have hnil : c.size ≠ 0 ↔ (c.restage.entries.map fun e => (e.1.bytes, e.2)) ≠ [] := by
      rw [← c.size_restage, ← List.length_pos_iff, List.length_map, Nat.pos_iff_ne_zero]
      rfl
    rw [Outcome.ofStaging_eq_success_iff, Contents.stageable_eq_size_iff, hnil, ← hvalues, List.forall_mem_map]
  · rw [Outcome.ofStaging_eq_failure_iff, hkeyed.stageable_eq_zero_iff, ← hvalues, List.forall_mem_map]

end Node

end TxRecovery
