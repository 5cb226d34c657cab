import TxRecovery.Proofs.Ledger.Settled
import TxRecovery.Proofs.Node.CommitOrder
import TxRecovery.Proofs.Node.Progress

/-!
# Synchronising twice

In commit order no staged row affects one that comes after it: its stage was worth something once, and what came late
since then has no stage (`Trusted.ordered_spares`). So unless a version affects its own transaction, a payload of the
queue finds the second time what it found the first time, and synchronising twice is synchronising once (`sync_again`).
-/

namespace TxRecovery

namespace Staging

open Payload (Spares)

variable {c : Contents} {late : List Bytes} {row row' : Row} {raw raw' : Bytes}

/-- No version of the row affects the other one. -/
def Row.Spares (row row' : Row) : Prop := ∀ v ∈ row.versions.values, row'.hash ∉ v.affected.keys

theorem Row.Faithful.spares (hr : row.Faithful) (hr' : row'.Faithful) (hs : row.Spares row') (hraw : raw ∈ row.raws)
    (hraw' : raw' ∈ row'.raws) : Payload.Spares raw raw' := by
  obtain ⟨v, hv, rfl⟩ := List.mem_map.1 hraw
  obtain ⟨k, p, hview⟩ := hr.of_mem_values hv
  obtain ⟨p', hp', hh⟩ := hr'.of_mem_raws hraw'
  intro q hq a ha
  cases hview.decode.symm.trans hq
  rw [Payload.isOf_of_decode hp', decide_eq_false_iff_not, hh]
  rintro rfl
  exact hs v hv (hview.affected ▸ ha)

namespace Contents

theorem Trusted.ordered_spares (hc : c.Trusted late) (hkeyed : c.Keyed) (hself : ∀ row ∈ c.ordered, row.Spares row) :
    c.ordered.Pairwise Row.Spares := by
  refine c.ordered_pairwise.imp_of_mem fun {row row'} hrow hrow' hle v hv ha => ?_
  obtain ⟨hmem, n, hn⟩ := mem_ordered.1 hrow
  obtain ⟨hmem', m, hm⟩ := mem_ordered.1 hrow'
  have hne : row'.hash ≠ row.hash := fun h => hself row hrow v hv (h ▸ ha)
  obtain ⟨r, hr, hstage⟩ := hc row hmem n hn row'.hash (Row.mem_dependencies.2 ⟨⟨v, hv, ha⟩, hne⟩)
  cases (hkeyed.get? hmem').symm.trans hr
  rcases hstage with ⟨k, hk, hlt⟩ | ⟨hnone, -⟩
  · cases hm.symm.trans hk
    exact absurd (hle n m hn hm) (Nat.not_le.2 hlt)
  · exact nomatch hm.symm.trans hnone

theorem Trusted.queue_spares (hc : c.Trusted late) (hf : c.Faithful) (hself : ∀ row ∈ c.ordered, row.Spares row) :
    (∀ raw ∈ c.queue, Spares raw raw) ∧ c.queue.Pairwise Spares := by
  have hrow : ∀ row ∈ c.ordered, row.Faithful := fun row h => hf.row row (mem_ordered.1 h).1
  constructor
  · intro raw hraw
    obtain ⟨row, hmem, hraw⟩ := List.mem_flatMap.1 hraw
    exact (hrow row hmem).spares (hrow row hmem) (hself row hmem) hraw hraw
  · rw [queue, List.pairwise_flatMap]
    refine ⟨fun row hmem => ?_, ?_⟩
    · refine List.pairwise_of_forall_mem_list fun raw hraw raw' hraw' => ?_
      exact (hrow row hmem).spares (hrow row hmem) (hself row hmem) hraw hraw'
    · refine (hc.ordered_spares hf.keyed hself).imp_of_mem fun {row row'} hmem hmem' hs => ?_
      exact fun raw hraw raw' hraw' => (hrow row hmem).spares (hrow row' hmem') hs hraw hraw'

end Contents

end Staging

namespace Node

open Staging (Contents Row)

variable {n : Node} {c c' : Contents} {late : List Bytes} {order : List Row}

theorem Move.Leaves.trusted {e : Move} (he : e.Leaves c c') (hkeyed : c.Keyed) (hc : c.Trusted late) :
    ∃ late', c'.Trusted late' := by
  cases e with
  | request r => exact ⟨_, Request.Leaves.trusted he hkeyed hc⟩
  | resend r => exact ⟨late, he ▸ hc⟩

/-- On a node that comes from empty stores, resends included, stages are worth what they are on one without. -/
theorem Serving.exists_trusted (hn : Serving n) : ∃ c late, n.Sound c ∧ c.Trusted late := by
  obtain ⟨version, settings, keyring, hlead⟩ := hn
  have hstep : ∀ e c c', c.Faithful → Move.Leaves e c c' → (∃ late, c.Trusted late) → ∃ late, c'.Trusted late := by
    rintro e c c' hf hleaves ⟨late, hc⟩
    exact hleaves.trusted hf.keyed hc
  have hempty : ∃ late, Contents.Trusted .empty late := ⟨[], Contents.trusted_empty⟩
  obtain ⟨c, hc, ⟨late, htrusted⟩, -⟩ :=
    hlead.induct hstep (sound_fresh version settings keyring) Ledger.keyed_empty hempty
  exact ⟨c, late, hc, htrusted⟩

/-- A second synchronisation answers what the first did, whatever the size of a page, and leaves the node as it is. -/
theorem sync_again (hn : Serving n) (horder : n.area.ordered = .ok order)
    (hself : ∀ row ∈ order, ∀ v ∈ row.versions.values, row.hash ∉ v.affected.keys) (pageSize pageSize' : Nat) :
    ∃ t l, (backend.sync pageSize).eval n = (.ok t, { n with ledger := l }) ∧
      (backend.sync pageSize').eval { n with ledger := l } = (.ok t, { n with ledger := l }) := by
  obtain ⟨c, late, hc, htrusted⟩ := hn.exists_trusted
  cases hc.holds.ordered.symm.trans horder
  obtain ⟨howns, hbehind⟩ := htrusted.queue_spares hc.faithful hself
  obtain ⟨t, l, hr⟩ := hc.exists_replayed
  have hagain := Ledger.replay_again hc.ledger hc.faithful.decode_queue hc.hasRoom howns hbehind hr.replay
  refine ⟨t, l, eval_sync_of_pageSize hc.holds hr pageSize, ?_⟩
  rw [eval_sync (n := { n with ledger := l }) hc.holds, replay, hagain]
  rfl

/-- Both rows of the sample are staged, and none affects its own transaction. -/
theorem rows_stagedSample : ∃ rows, stagedSample.area.rows = .ok rows ∧
    (((rows.map Prod.snd).filter fun row => row.stage.isSome).map fun row => row.versions.size) = [1, 1] ∧
    (∀ row ∈ rows.map Prod.snd, ∀ v ∈ row.versions.values, row.hash ∉ v.affected.keys) ∧
    ∀ p ∈ samplePayloads, ∃ row ∈ rows.map Prod.snd, row.hash = p.hash ∧ row.stage.isSome :=
  ⟨stagedSample.area.rows.toOption.getD [], by decide +kernel⟩

/-- The first synchronisation commits both payloads of the sample, of which one depends on the other. -/
theorem sync_again_sample : ∃ order, stagedSample.area.ordered = .ok order ∧ order.length = 2 ∧
    stagedSample.ledger.size = 0 ∧
    ∃ t l, (backend.sync 1).eval stagedSample = (.ok t, { stagedSample with ledger := l }) ∧
      (backend.sync 2).eval { stagedSample with ledger := l } = (.ok t, { stagedSample with ledger := l }) ∧
      t.attempted = 2 ∧ t.violations = 0 ∧ ∀ p ∈ samplePayloads, ∃ s, l.find? p.hash = .ok (some s) := by
  obtain ⟨rows, hrows, hsizes, hself, hhashes⟩ := rows_stagedSample
  have hperm := Staging.inOrder_perm (rows.map Prod.snd)
  have hserving : Serving stagedSample := (reachable_sample.step .stage (by decide +kernel)).serving
  obtain ⟨t, l, hsync, hagain⟩ := sync_again hserving (Staging.Area.ordered_of_rows hrows)
    (fun row hrow => hself row (List.mem_of_mem_filter (hperm.mem_iff.1 hrow))) 1 2
  -- what the first one commits
  obtain ⟨c, hc, hco⟩ := sound_sample
  obtain ⟨t', l', hr, hv, hattempted, hstored⟩ := hc.exists_committed hco
  have hsame : stagedSample = (stage.eval sample).2 := by rw [stagedSample, Request.run]
  obtain ⟨hholds, hcommits⟩ := hc.eval_sync_staged hr 1
  rw [← hsame] at hholds hcommits
  cases hsync.symm.trans hcommits
  rw [← hholds.map_snd_rows hrows] at hattempted hstored
  refine ⟨_, Staging.Area.ordered_of_rows hrows, ?_, by decide +kernel, t, l, hsync, hagain, ?_, hv, fun p hp => ?_⟩
  · rw [hperm.length_eq]
    simpa using congrArg List.length hsizes
  · rw [hattempted, hsizes]
    rfl
  · obtain ⟨row, hrow, hhash, hs⟩ := hhashes p hp
    rw [← hhash]
    exact (hstored row hrow hs).1

end Node

end TxRecovery
