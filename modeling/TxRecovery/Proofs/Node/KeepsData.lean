import TxRecovery.Proofs.Node.CommitOrder

/-!
# A recovery pass loses nothing

A pass over a reachable node that empties the staging area has committed every version of every row
(`runPass_loses_nothing`): all rows were staged, so all their payloads were attempted, and since none was
refused the ledger covers each of them. A pass that does not empty the area leaves it as it was but for
stages and issues. It does empty one that is coherent and has all that its rows depend on
(`Sound.cleans_of_coherent`).
-/

namespace TxRecovery

open Staging (Contents Coherent)

namespace Node

variable {n : Node} {c : Contents} {t : Tally} {l : Ledger} {now : String}

theorem Settles.allStaged (hs : Settles c t) : c.restage.AllStaged :=
  Contents.stageable_eq_size_iff.1 hs.staged

/-- A pass that empties the area has committed all that was staged, and any other leaves the area as it
was, up to stages and issues. Over an empty area nothing happens. -/
theorem runPass_loses_nothing (hn : Reachable n) (now : String) :
    ∃ rows, n.area.rows = .ok rows ∧
      (rows = [] → (runPass now).eval n = (.ok none, n)) ∧
      (rows ≠ [] → ∃ s m, (runPass now).eval n = (.ok (some s), m) ∧
        (∀ k, s.cleaned = some k → k = rows.length ∧ m.area.size = 0 ∧
          ∀ e ∈ rows, ∀ v ∈ e.2.versions.values, m.ledger.Secures e.2.hash v) ∧
        (s.cleaned = none →
          ∃ rows', m.area.rows = .ok rows' ∧ rows'.map untouched = rows.map untouched)) := by
  obtain ⟨c, hc⟩ := hn.sound
  have hsize : n.area.size = (c.entries.map fun e => (e.1.bytes, e.2)).length := by
    rw [hc.holds.size, List.length_map]
    rfl
  refine ⟨_, hc.holds.rows, fun hnil => ?_, fun hne => ?_⟩
  · rw [hnil] at hsize
    exact eval_runPass_of_empty now hsize
  · have harea : n.area.size ≠ 0 := fun h => hne (List.eq_nil_of_length_eq_zero (hsize.symm.trans h))
    obtain ⟨area, metrics, -, hholds⟩ := eval_stage hc
    have hstaged := hc.restage hholds metrics
    obtain ⟨t, l, hr⟩ := hstaged.exists_replayed
    obtain ⟨s, m, heval, rfl, hend⟩ := eval_runPass now hc harea hr
    refine ⟨s, m, heval, fun k hk => ?_, fun hk => ?_⟩
    · rcases hend with ⟨hs, hcleaned, hempty⟩ | ⟨-, hcleaned, -⟩
      · cases hcleaned.symm.trans hk
        refine ⟨hc.holds.size.symm.trans hsize, by rw [hempty]; rfl, fun e he v hv => ?_⟩
        obtain ⟨e', he', rfl⟩ := List.mem_map.1 he
        have hrow := Contents.mem_restage (List.mem_map_of_mem (f := Prod.snd) he')
        exact hstaged.secures_of_replayed hr hs.violations hrow (hs.allStaged _ hrow) hv
      · exact nomatch hcleaned.symm.trans hk
    · rcases hend with ⟨-, hcleaned, -⟩ | ⟨-, -, hkept⟩
      · exact nomatch hcleaned.symm.trans hk
      · exact ⟨_, hkept.rows, untouched_restage c⟩

/-- If what is staged and stored is coherent, a pass does empty an area of which every row gets a stage. -/
theorem Sound.cleans_of_coherent (hc : n.Sound c) (hco : Coherent c.values n.ledger)
    (hstage : (Node.stage.eval n).1 = .ok .success) (now : String) :
    ∃ s m, (Node.runPass now).eval n = (.ok (some s), m) ∧ s.cleaned = some n.area.size := by
  obtain ⟨area, metrics, heval, -⟩ := eval_stage hc
  rw [heval] at hstage
  obtain ⟨hstageable, hne⟩ := Outcome.ofStaging_eq_success_iff.1 (Except.ok.inj hstage)
  obtain ⟨t, l, hr, hv⟩ := hc.exists_replayed_of_coherent hco
  have hall : c.restage.AllStaged := Contents.stageable_eq_size_iff.1 hstageable
  have hattempted : 0 < t.attempted := by
    rw [hr.attempted]
    exact Nat.add_pos_right _ (hc.faithful.restage.queue_pos hall (c.size_restage ▸ hne))
  obtain ⟨s, m, hpass, -, hend⟩ := eval_runPass now hc (hc.holds.size ▸ hne) hr
  rcases hend with ⟨-, hcleaned, -⟩ | ⟨hnot, -⟩
  · exact ⟨s, m, hpass, hcleaned.trans (congrArg some hc.holds.size.symm)⟩
  · exact absurd ⟨hstageable, hattempted, hv⟩ hnot

theorem runPass_sample_loses_nothing :
    ∃ rows s m, sample.area.rows = .ok rows ∧ rows.length = 2 ∧
      (runPass "").eval sample = (.ok (some s), m) ∧ s.cleaned = some 2 ∧ m.area.size = 0 ∧
      ∀ e ∈ rows, ∀ v ∈ e.2.versions.values, m.ledger.Secures e.2.hash v := by
  obtain ⟨rows, hrows, -, hpass⟩ := runPass_loses_nothing reachable_sample ""
  have hlen : sample.area.rows.toOption.map List.length = some 2 := by decide +kernel
  rw [hrows] at hlen
  have hlen : rows.length = 2 := Option.some.inj hlen
  obtain ⟨s, m, heval, hcleaned, -⟩ := hpass fun h => by rw [h] at hlen; exact nomatch hlen
  obtain ⟨c, hc, hco⟩ := sound_sample
  obtain ⟨s', m', heval', hk⟩ := hc.cleans_of_coherent hco (by decide +kernel) ""
  cases heval.symm.trans heval'
  have hsize : sample.area.size = 2 := by decide +kernel
  rw [hsize] at hk
  obtain ⟨-, hempty, hsecures⟩ := hcleaned 2 hk
  exact ⟨rows, s, m, hrows, hlen, heval, hk, hempty, hsecures⟩

end Node

end TxRecovery
