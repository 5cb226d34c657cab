import TxRecovery.Proofs.Evaluation
import TxRecovery.Sync

/-!
# Synchronisation, page by page

Where the area hands out its rows in pages and commits leave them alone, `Backend.commitFrom` commits
every row once, in order, whatever the size of a page (`eval_commitFrom`), and so does a synchronisation
(`eval_sync_eq_foldlM`).
-/

namespace TxRecovery

namespace Outcome

theorem ofStaging_eq_success_iff {total staged : Nat} :
    ofStaging total staged = success ↔ staged = total ∧ total ≠ 0 := by
  unfold ofStaging
  split
  · rename_i hzero
    exact ⟨nofun, fun h => absurd (h.1.symm.trans hzero) h.2⟩
  · rename_i hne
    split
    · rename_i hall
      exact ⟨fun _ => ⟨hall, hall ▸ hne⟩, fun _ => rfl⟩
    · rename_i hpart
      exact ⟨nofun, fun h => absurd h.1 hpart⟩

theorem ofStaging_eq_failure_iff {total staged : Nat} : ofStaging total staged = failure ↔ staged = 0 := by
  unfold ofStaging
  split
  · exact ⟨fun _ => ‹_›, fun _ => rfl⟩
  · split <;> exact ⟨nofun, fun hzero => absurd hzero ‹_›⟩

theorem ofSync_eq_success_iff {attempted violations : Nat} :
    ofSync attempted violations = success ↔ 0 < attempted ∧ violations = 0 := by
  unfold ofSync
  split
  · exact ⟨fun _ => ⟨‹_ ∧ _›.2, ‹_ ∧ _›.1⟩, fun _ => rfl⟩
  · split <;> exact ⟨nofun, fun h => absurd ⟨h.2, h.1⟩ ‹¬ (_ ∧ _)›⟩

theorem ofSync_eq_failure_iff {attempted violations : Nat} :
    ofSync attempted violations = failure ↔ violations = attempted := by
  unfold ofSync
  split
  · exact ⟨nofun, fun h => by omega⟩
  · split
    · exact ⟨fun _ => ‹_›, fun _ => rfl⟩
    · exact ⟨nofun, fun h => absurd h ‹_›⟩

end Outcome

/-- The counters after one more answer of the commit path, or the failure that ends the run. -/
def Tally.note (t : Tally) : Except CommitError TxHash → Except ResendError Tally
  | .ok _ => .ok t.accept
  | .error (.privacy _) => .ok t.refuse
  | .error e => .error (.commit e)

namespace Backend

variable {σ : Type} {b : Backend σ} {I : σ → Prop} {rows : List Staging.Row} {pageSize count : Nat}

theorem eval_commitFrom (hserve : Op.Serves b.stagedPage I rows)
    (hkeep : ∀ t row, (b.commitRow t row).Keeps I) (hsize : 1 ≤ pageSize) (hcount : rows.length ≤ count)
    (offset : Nat) (t : Tally) {s : σ} (hs : I s) :
    (b.commitFrom pageSize count offset t).eval s = ((rows.drop offset).foldlM b.commitRow t).eval s := by
  induction hk : count - offset using Nat.strongRecOn generalizing offset t s with
  | _ k ih =>
    subst hk
    unfold commitFrom
    split
    · have hpage : ((b.stagedPage offset pageSize).mapError ResendError.db).eval s =
          (.ok ((rows.drop offset).take pageSize), s) := by
        rw [Op.eval_mapError, hserve s hs]
        rfl
      rw [Op.eval_bind_ok hpage]
      rcases Op.page_cases rows offset hsize with ⟨hnil, hend⟩ | ⟨row, rest, hcons, hle, hdrop⟩
      · rw [hnil, hend]
        rfl
      · have hkeep' := Op.Keeps.foldlM hkeep (row :: rest) t s hs
        rw [hcons, hdrop, Op.eval_foldlM_append, Op.eval_bind, Op.eval_bind]
        rcases he : ((row :: rest).foldlM b.commitRow t).eval s with ⟨_ | t', s'⟩
        · rfl
        · rw [he] at hkeep'
          exact ih _ (by omega) _ t' hkeep' rfl
    · have hend : rows.drop offset = [] := List.drop_eq_nil_of_le (by omega)
      rw [hend]
      rfl

theorem eval_commitVersion (b : Backend σ) (t : Tally) (v : Staging.Version) (s : σ) :
    (b.commitVersion t v).eval s = (t.note ((b.commit v.raw).eval s).1, ((b.commit v.raw).eval s).2) := by
  unfold commitVersion
  rw [Op.eval_bind, Op.eval_attempt]
  rcases ((b.commit v.raw).eval s).1 with (_ | _ | _) | _ <;> rfl

theorem keeps_commitRow (hkeep : ∀ raw, (b.commit raw).Keeps I) (t : Tally) (row : Staging.Row) :
    (b.commitRow t row).Keeps I := by
  refine Op.Keeps.foldlM (fun t v s hs => ?_) row.versions.values t
  rw [eval_commitVersion]
  exact hkeep v.raw s hs

theorem eval_sync_eq_foldlM (hserve : Op.Serves b.stagedPage I rows)
    (harea : ∀ s, I s → b.areaSize.eval s = (.ok count, s)) (hkeep : ∀ raw, (b.commit raw).Keeps I)
    (hcount : rows.length ≤ count) (pageSize : Nat) {s : σ} (hs : I s) :
    (b.sync pageSize).eval s = (rows.foldlM b.commitRow .zero).eval s := by
  have hsize : ∀ s, I s → (b.areaSize.mapError ResendError.db).eval s = (.ok count, s) := by
    intro s hs
    rw [Op.eval_mapError, harea s hs]
    rfl
  have hloop := eval_commitFrom hserve (keeps_commitRow hkeep) (Nat.le_max_right pageSize 1) hcount 0 .zero hs
  rw [List.drop_zero] at hloop
  have hkept := Op.Keeps.foldlM (keeps_commitRow hkeep) rows .zero s hs
  unfold sync
  rw [Op.eval_bind_ok (hsize s hs), Op.eval_bind, hloop]
  rcases he : (rows.foldlM b.commitRow .zero).eval s with ⟨_ | t, s'⟩
  · rfl
  · rw [he] at hkept
    exact Op.eval_bind_ok (hsize s' hkept) _

/-! ### Pushes -/

theorem keeps_stagePayload (hkeep : ∀ h k v, (b.upsert h k v).Keeps I) (raw : Bytes) :
    (b.stagePayload raw).Keeps I := by
  have hyields : (b.stagePayload raw).Yields I fun _ => True :=
    (Op.Yields.ofExcept _ _).bind fun p _ =>
      ((Op.Yields.mapError _ fun s hs => ⟨hkeep _ _ _ s hs, fun _ _ => trivial⟩ :
        ((b.upsert p.hash (.ofPayload p) (.ofPayload raw p)).mapError ResendError.db).Yields I fun _ => True)).bind
          fun _ _ => .pure trivial
  exact fun s hs => (hyields s hs).1

/-- A push writes by upserts alone, those before a failure included. -/
theorem keeps_push (hkeep : ∀ h k v, (b.upsert h k v).Keeps I) (payloads : List Bytes) :
    (b.push payloads).Keeps I := by
  induction payloads with
  | nil => exact fun s hs => hs
  | cons raw payloads ih =>
    intro s hs
    have hcons : b.push (raw :: payloads) = b.stagePayload raw >>= fun _ => b.push payloads := rfl
    have hfirst := keeps_stagePayload hkeep raw s hs
    rw [hcons, Op.eval_bind]
    rcases he : (b.stagePayload raw).eval s with ⟨_ | _, s'⟩
    · rw [he] at hfirst
      exact hfirst
    · rw [he] at hfirst
      exact ih s' hfirst

end Backend

end TxRecovery
