import TxRecovery.Proofs.Ledger.Replay
import TxRecovery.Proofs.Staging.Contents

/-!
# What a stage is worth

`Contents.Trusted c late`: whatever a staged row depends on has a row itself, of a smaller stage, or of none if one
of the payloads `late` is of it. A staging pass makes every stage worth that, with nothing late (`trusted_restage`). A
push takes the stage from the rows of its payloads and leaves the others theirs, so that these payloads are late
(`Trusted.push`).
-/

namespace TxRecovery

namespace Staging

/-- Some of these are payloads of the transaction `d`. -/
def IsLate (late : List Bytes) (d : TxHash) : Prop := ∃ raw ∈ late, Payload.isOf d raw = true

namespace Contents

variable {c : Contents} {late late' raws : List Bytes} {raw : Bytes} {p : Payload} {row : Row} {h d : TxHash} {n : Nat}

def Trusted (c : Contents) (late : List Bytes) : Prop :=
  ∀ row ∈ c.values, ∀ n, row.stage = some n → ∀ d ∈ row.dependencies,
    ∃ r, c.get? d = some r ∧ ((∃ m, r.stage = some m ∧ m < n) ∨ r.stage = none ∧ IsLate late d)

theorem trusted_empty : Trusted .empty late := nofun

theorem trusted_restage (hc : c.Keyed) : c.restage.Trusted late := by
  intro _ hmem n hn d hd
  obtain ⟨row, hrow, rfl⟩ := exists_of_mem_restage hmem
  obtain ⟨m, hm, hlt⟩ := exists_stage_lt (fun r hr r' hr' => hc.injective hr hr') hrow hn hd
  obtain ⟨r, hr, rfl⟩ := exists_row_of_stage hm
  refine ⟨r.restage (stages c.values), ?_, .inl ⟨m, hm, hlt⟩⟩
  rw [get?_restage, hc.get? hr]
  rfl

namespace Trusted

theorem mono (hc : c.Trusted late) (hsub : late ⊆ late') : c.Trusted late' := by
  intro row hrow n hn d hd
  obtain ⟨r, hr, hs | ⟨hs, raw, hraw, hof⟩⟩ := hc row hrow n hn d hd
  · exact ⟨r, hr, .inl hs⟩
  · exact ⟨r, hr, .inr ⟨hs, raw, hsub hraw, hof⟩⟩

theorem merge (hc : c.Trusted late) (hp : Payload.decode raw = .ok p) :
    Trusted (c.insert p.hash (c.merged raw p)) (late ++ [raw]) := by
  have hlate : IsLate (late ++ [raw]) p.hash :=
    ⟨raw, List.mem_append_right _ List.mem_cons_self, by rw [Payload.isOf_of_decode hp, decide_eq_true rfl]⟩
  intro row hrow n hn d hd
  obtain ⟨h, hget⟩ := SortedMap.mem_values_iff.1 hrow
  rw [SortedMap.get?_insert] at hget
  split at hget
  · -- the row of the payload has no stage
    cases hget
    exact nomatch hn
  · obtain ⟨r, hr, hs⟩ := hc.mono (List.subset_append_left _ _) row (SortedMap.mem_values_iff.2 ⟨h, hget⟩) n hn d hd
    by_cases hd' : d = p.hash
    · subst hd'
      exact ⟨c.merged raw p, SortedMap.get?_insert_self _ _ _, .inr ⟨rfl, hlate⟩⟩
    · exact ⟨r, by rwa [SortedMap.get?_insert_of_ne _ hd'], hs⟩

theorem push (hc : c.Trusted late) (raws : List Bytes) : (c.push raws).Trusted (late ++ raws) := by
  induction raws generalizing c late with
  | nil => rwa [List.append_nil]
  | cons raw raws ih =>
    cases hp : Payload.decode raw with
    | error e =>
      rw [push_cons_error hp]
      exact hc.mono (List.subset_append_left _ _)
    | ok p =>
      have hrest := ih (hc.merge hp)
      rwa [List.append_assoc, List.singleton_append, ← push_cons_ok hp] at hrest

/-- In commit order a row comes after all that it depends on, but for what is late. -/
theorem before (hc : c.Trusted late) (hkeyed : c.Keyed) {done todo : List Row}
    (ho : c.ordered = done ++ row :: todo) (hd : d ∈ row.dependencies) :
    (∃ r ∈ done, r.hash = d) ∨ IsLate late d := by
  have hmem : row ∈ c.ordered := ho ▸ by simp
  obtain ⟨hrow, n, hn⟩ := mem_ordered.1 hmem
  obtain ⟨r, hr, ⟨m, hm, hlt⟩ | ⟨-, hlate⟩⟩ := hc row hrow n hn d hd
  · exact .inl ⟨r, mem_before_of_stage_lt ho (SortedMap.mem_values_iff.2 ⟨d, hr⟩) hn hm hlt, hkeyed d r hr⟩
  · exact .inr hlate

end Trusted

end Contents

end Staging

end TxRecovery
