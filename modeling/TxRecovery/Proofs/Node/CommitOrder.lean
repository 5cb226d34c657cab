import TxRecovery.Proofs.Node.Depths
import TxRecovery.Proofs.Staging.Order

/-!
# Synchronising after a staging pass

Over a coherent area and ledger a staging pass followed by a synchronisation refuses nothing and commits
every version of every staged row (`sync_commits_staged`).
-/

namespace TxRecovery

namespace Node

open Staging (Area Contents Row Version Coherent)

variable {n m : Node} {c : Contents} {t : Tally} {l : Ledger}

theorem Sound.exists_replayed_of_coherent (hn : n.Sound c) (hco : Coherent c.values n.ledger) :
    ∃ t l, n.ledger.Replayed .zero c.restage.queue t l ∧ t.violations = 0 := by
  obtain ⟨area, metrics, -, hholds⟩ := eval_stage hn
  have hstaged := hn.restage hholds metrics
  exact Ledger.exists_replayed_of_follows hstaged.ledger hstaged.faithful.decode_queue hstaged.hasRoom
    (fun _ _ _ hq _ hp => hco.follows hn.faithful hq hp) .zero

theorem length_queue (c : Contents) :
    c.queue.length =
      ((c.values.filter fun row => row.stage.isSome).map fun row => row.versions.size).sum := by
  have hraws : ∀ row : Row, row.raws.length = row.versions.size := fun row => by
    simp only [Row.raws, SortedMap.values, List.length_map, SortedMap.size]
  rw [Contents.queue, List.length_flatMap]
  simp only [hraws]
  exact (c.ordered_perm.map _).sum_nat

/-- What a synchronisation commits, once a staging pass has given the rows their stages. -/
theorem Sound.exists_committed (hn : n.Sound c) (hco : Coherent c.values n.ledger) :
    ∃ t l, n.ledger.Replayed .zero c.restage.queue t l ∧ t.violations = 0 ∧
      t.attempted =
        ((c.restage.values.filter fun row => row.stage.isSome).map fun row => row.versions.size).sum ∧
      ∀ row ∈ c.restage.values, row.stage.isSome →
        (∃ s, l.find? row.hash = .ok (some s)) ∧ ∀ v ∈ row.versions.values, l.Secures row.hash v := by
  obtain ⟨area, metrics, -, hholds⟩ := eval_stage hn
  have hstaged := hn.restage hholds metrics
  obtain ⟨t, l, hr, hv⟩ := hn.exists_replayed_of_coherent hco
  refine ⟨t, l, hr, hv, ?_, fun row hrow hs => ?_⟩
  · rw [hr.attempted, length_queue]
    exact Nat.zero_add _
  · have hsec := fun v hmem => hstaged.secures_of_replayed hr hv hrow hs (v := v) hmem
    refine ⟨?_, hsec⟩
    obtain ⟨v, hmem⟩ := (hstaged.faithful.row row hrow).exists_version
    obtain ⟨-, q, -, hq, -⟩ := hsec v hmem
    rcases hr.sound.find?_cases row.hash with hf | ⟨s, -, hf, -⟩
    · rw [Ledger.payload?_of_find?_none hf] at hq
      exact nomatch hq
    · exact ⟨s, hf⟩

/-- Whatever the ledger and however the area was filled, if what they hold is coherent, then after a
staging pass, which gives the rows of before their stages, a synchronisation refuses nothing, attempts
every version of every staged row, and leaves each of these rows in the ledger. -/
theorem sync_commits_staged {rows : List (Bytes × Row)} (hm : Reachable m) (hl : l.Sound)
    (hfit : FitsInMemory l.tree) (hrows : m.area.rows = .ok rows)
    (hco : Coherent (rows.map Prod.snd) l) :
    ∃ outcome n₁ staged t n₂, stage.eval { m with ledger := l } = (.ok outcome, n₁) ∧
      Assigned { m with ledger := l } rows outcome { n₁ with metrics := m.metrics } staged ∧
      n₁.area.rows = .ok staged ∧ sync.eval n₁ = (.ok t, n₂) ∧ t.violations = 0 ∧
      t.attempted =
        (((staged.map Prod.snd).filter fun row => row.stage.isSome).map fun row => row.versions.size).sum ∧
      ∀ e ∈ staged, e.2.stage.isSome →
        (∃ s, n₂.ledger.find? e.2.hash = .ok (some s)) ∧
          ∀ v ∈ e.2.versions.values, n₂.ledger.Secures e.2.hash v := by
  obtain ⟨c, hc⟩ := hm.sound
  have hn : ({ m with ledger := l } : Node).Sound c := ⟨hc.holds, hc.faithful, hl, hfit, hc.size, hc.rawBytes⟩
  rw [hc.holds.map_snd_rows hrows] at hco
  cases hc.holds.rows.symm.trans hrows
  obtain ⟨area, metrics, hstage, hholds⟩ := eval_stage hn
  obtain ⟨t, l', hr, hv, hattempted, hstored⟩ := hn.exists_committed hco
  obtain ⟨metrics', hsync⟩ := eval_sync_of_replayed (hn.restage hholds metrics).holds hr
  have hvalues := hholds.map_snd_rows hholds.rows
  refine ⟨_, _, _, t, _, hstage, hn.assigned hholds, hholds.rows, hsync, hv, ?_, fun e he hs => ?_⟩
  · rw [hvalues, hattempted]
  · exact hstored e.2 (hvalues ▸ List.mem_map_of_mem he) hs

/-- The ledger that has the second of `samplePayloads` already. -/
def sampleLedger : Ledger :=
  Ledger.empty.save ⟨(samplePayloads.getD 1 default).hash, (samplePayloads.getD 1 default).encode⟩

/-- The rows of the sample, one version each: two payloads that agree with either ledger. -/
theorem rows_sample : ∃ rows, sample.area.rows = .ok rows ∧
    Coherent (rows.map Prod.snd) sample.ledger ∧ Coherent (rows.map Prod.snd) sampleLedger ∧
    ((rows.map untouched).map fun row => row.2.2.size) = [1, 1] ∧
    ∀ p ∈ samplePayloads, p.hash ∈ (rows.map untouched).map fun row => row.2.1 :=
  ⟨sample.area.rows.toOption.getD [], by decide +kernel⟩

theorem sync_commits_sample : ∃ rows, sample.area.rows = .ok rows ∧
    ∃ n₁ staged t n₂, stage.eval { sample with ledger := sampleLedger } = (.ok .success, n₁) ∧
      n₁.area.rows = .ok staged ∧ staged.map untouched = rows.map untouched ∧ staged.length = 2 ∧
      (∀ e ∈ staged, e.2.stage.isSome) ∧ sync.eval n₁ = (.ok t, n₂) ∧ t.attempted = 2 ∧ t.violations = 0 ∧
      ∀ p ∈ samplePayloads, ∃ s, n₂.ledger.find? p.hash = .ok (some s) := by
  have hl : sampleLedger.Sound := Ledger.sound_empty.save (Payload.length_hash_lt _) (by decide +kernel)
    (p := samplePayloads.getD 1 default) (by decide +kernel)
  obtain ⟨rows, hrows, -, hco, hsizes, hhashes⟩ := rows_sample
  obtain ⟨outcome, n₁, staged, t, n₂, hstage, hassigned, hstaged, hsync, hv, ht, hstored⟩ :=
    sync_commits_staged reachable_sample hl (by decide +kernel) hrows hco
  have hsuccess : (stage.eval { sample with ledger := sampleLedger }).1 = .ok .success := by decide +kernel
  rw [hstage] at hsuccess
  cases hsuccess
  obtain ⟨hall, -⟩ := hassigned.success_iff.1 rfl
  -- versions and hashes are those of before
  rw [← hassigned.untouched] at hsizes hhashes
  have hlength : staged.length = 2 := by simpa using congrArg List.length hsizes
  have hfilter : (staged.map Prod.snd).filter (fun row => row.stage.isSome) = staged.map Prod.snd :=
    List.filter_eq_self.2 (List.forall_mem_map.2 hall)
  have hattempted : t.attempted = 2 := by
    rw [ht, hfilter, List.map_map]
    rw [List.map_map] at hsizes
    exact congrArg List.sum hsizes
  refine ⟨rows, hrows, n₁, staged, t, n₂, hstage, hstaged, hassigned.untouched, hlength, hall, hsync, hattempted, hv,
    fun p hp => ?_⟩
  obtain ⟨u, hu, hhash⟩ := List.mem_map.1 (hhashes p hp)
  obtain ⟨e, he, rfl⟩ := List.mem_map.1 hu
  rw [← hhash]
  exact (hstored e he (hall e he)).1

/-- The sample is coherent with its own ledger, too. -/
theorem sound_sample : ∃ c, sample.Sound c ∧ Coherent c.values sample.ledger := by
  obtain ⟨c, hc⟩ := reachable_sample.sound
  obtain ⟨rows, hrows, hco, -⟩ := rows_sample
  exact ⟨c, hc, hc.holds.map_snd_rows hrows ▸ hco⟩

end Node

end TxRecovery
