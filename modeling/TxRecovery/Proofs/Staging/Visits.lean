import TxRecovery.Proofs.Notes
import TxRecovery.Proofs.Staging.Area

/-!
# What a synchronisation visits

A synchronisation over any staging area, with any commit path, hands over the versions of the staged rows, each once: rows
by stage and hash, versions of a row by sender and recipients (`sync_visits`). The size of a page plays no part in it,
though every page is cut from an order that is worked out anew.
-/

namespace TxRecovery

namespace Backend

open Staging (Area Row inOrder)

variable {σ : Type}

/-- The backend over a staging area that nothing changes. -/
def withArea (b : Backend σ) (a : Area) : Backend σ :=
  { b with
    areaSize := Op.ofExcept (.ok a.size)
    countStaged := Op.ofExcept a.countStaged
    stagedPage := fun offset max => Op.ofExcept (a.page offset max) }

/-- A damaged row ends a synchronisation before its first call. -/
theorem eval_sync_withArea_error {b : Backend σ} {a : Area} {e : DbError} (h : a.rows = .error e) (pageSize : Nat)
    (s : σ × Notes) : ((b.withArea a).noted.sync pageSize).eval s = (.error (.db e), s) := by
  have hsize : ((b.withArea a).noted.areaSize.mapError ResendError.db).eval s = (.ok a.size, s) := rfl
  have hpage : (((b.withArea a).noted.stagedPage 0 (max pageSize 1)).mapError ResendError.db).eval s =
      (.error (.db e), s) := by
    show ((a.page 0 (max pageSize 1)).mapError _, s) = _
    rw [Area.page_of_rows_error h]
    rfl
  unfold sync commitFrom
  rw [Op.eval_bind_ok hsize, dif_pos (Area.size_pos_of_rows_error h)]
  exact Op.eval_bind_error (Op.eval_bind_error hpage _) _

/-- A synchronisation of these rows visits `order`, makes the calls `calls` and answers with `r`. -/
structure Visited (rows order : List Row) (calls : List Call) (r : Except ResendError Tally) : Prop where
  staged : order.Perm (rows.filter fun row => row.stage.isSome)
  ascending : order.Pairwise fun row row' => ∀ n m, row.stage = some n → row'.stage = some m →
    n < m ∨ n = m ∧ (compare row.hash row'.hash).isLE
  versions : ∀ row ∈ order, row.versions.entries.Pairwise fun e e' =>
    (compare e.1.sender e'.1.sender).then (compare e.1.recipients e'.1.recipients) = .lt
  handed : Handed .zero (order.flatMap Row.raws) calls r
  attempted : ∀ t, r = .ok t → t.attempted = (order.flatMap Row.raws).length
  violations : ∀ t, r = .ok t → t.violations = calls.countP Call.refused ∧ t.violations ≤ t.attempted
  success_iff : ∀ t, r = .ok t → (t.outcome = .success ↔ 0 < t.attempted ∧ t.violations = 0)
  failure_iff : ∀ t, r = .ok t → (t.outcome = .failure ↔ t.violations = t.attempted)

theorem visited_inOrder {rows : List Row} {calls : List Call} {r : Except ResendError Tally}
    (hh : Handed .zero ((inOrder rows).flatMap Row.raws) calls r) : Visited rows (inOrder rows) calls r := by
  have htally : ∀ t, r = .ok t →
      t.attempted = ((inOrder rows).flatMap Row.raws).length ∧ t.attempted = calls.length ∧
        t.violations = calls.countP Call.refused := by
    rintro t rfl
    obtain ⟨horder, hattempted, hviolations⟩ := hh.tally
    rw [← horder, List.length_map]
    exact ⟨hattempted.trans (Nat.zero_add _), hattempted.trans (Nat.zero_add _), hviolations.trans (Nat.zero_add _)⟩
  refine ⟨Staging.inOrder_perm rows, Staging.inOrder_pairwise rows, fun row _ => row.versions.ascending, hh,
    fun t ht => (htally t ht).1, fun t ht => ?_, fun t _ => Outcome.ofSync_eq_success_iff,
    fun t _ => Outcome.ofSync_eq_failure_iff⟩
  obtain ⟨-, hattempted, hviolations⟩ := htally t ht
  rw [hattempted, hviolations]
  exact ⟨rfl, List.countP_le_length⟩

/-- What a synchronisation does over any area, with any commit path: the same for every size of a page. Its rows are what
the entries of the area decode to, and the first one that does not ends it. -/
theorem sync_visits (b : Backend σ) (a : Area) (s : σ) :
    match a.rows with
    | .error e =>
      (∃ before damaged after, a.tree.entries = before ++ damaged :: after ∧
        (∀ entry ∈ before, ∃ row, Row.format.decode entry.2 = .ok row) ∧
        ∃ d, Row.format.decode damaged.2 = .error d ∧ e = .serialization d.message) ∧
      ∀ pageSize, ((b.withArea a).noted.sync pageSize).eval (s, .none) = (.error (.db e), s, .none)
    | .ok rows =>
      List.Forall₂ (fun entry e => e.1 = entry.1 ∧ Row.format.decode entry.2 = .ok e.2) a.tree.entries rows ∧
      ∃ order calls r s', Visited (rows.map Prod.snd) order calls r ∧
        ∀ pageSize, ((b.withArea a).noted.sync pageSize).eval (s, .none) = (r, s', ⟨[], calls⟩) ∧
          ((b.withArea a).sync pageSize).eval s = (r, s') := by
  split
  · rename_i e h
    exact ⟨Area.rows_eq_error_iff.1 h, fun pageSize => eval_sync_withArea_error h pageSize _⟩
  · rename_i rows h
    refine ⟨Area.rows_eq_ok_iff.1 h, ?_⟩
    have hserve : Op.Serves (b.withArea a).stagedPage (fun _ => True) (inOrder (rows.map Prod.snd)) := by
      intro s _ offset max
      show (a.page offset max, s) = _
      rw [Area.page_of_rows h]
    have hlen : (inOrder (rows.map Prod.snd)).length ≤ a.size := by
      rw [(Staging.inOrder_perm _).length_eq, ← Area.length_rows h]
      exact Nat.le_trans (List.length_filter_le _ _) (Nat.le_of_eq (List.length_map _))
    obtain ⟨calls, r, s', heval, hh⟩ := eval_sync_noted (s := s) hserve (fun _ _ => rfl) (fun _ _ _ => trivial) hlen
      trivial .none
    exact ⟨_, calls, r, s', visited_inOrder hh, heval⟩

end Backend

end TxRecovery
