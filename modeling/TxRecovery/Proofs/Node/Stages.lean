import TxRecovery.Proofs.Node.Reachable
import TxRecovery.Proofs.Staging.Trusted

/-!
# Stages of reachable nodes

`Node.Reached n late`: the node `n` is reachable, and `late` are the payloads that were pushed to it since a staging
pass last looked at its area. A stage is worth what the last pass made it worth, up to these (`stages_trusted`): what a
staged row depends on is in the area, with a smaller stage and before it in commit order, unless a payload of it
came late. If one did, the row keeps the stage of before (`stage_outlives_push`).
-/

namespace TxRecovery

namespace Node

open Staging (Contents IsLate Row)

variable {n : Node} {c c' : Contents} {late : List Bytes}

/-- The payloads that no staging pass has looked at, after a request to a node with these. -/
def Request.unstaged : Request → List Bytes → List Bytes
  | push payloads, late => late ++ payloads
  | sync, late => late
  | stage, _ | cleanup, _ | pass _, _ => []

inductive Reached : Node → List Bytes → Prop where
  | fresh (version : String) (settings : Settings) (keyring : Keyring) :
    Reached (Node.fresh version settings keyring) []
  | step {n : Node} {late : List Bytes} (r : Request) (hn : Reached n late) (hfit : ∀ m ∈ r.trail n, m.Fits) :
    Reached (r.run n) (r.unstaged late)

theorem Reachable.exists_reached (hn : Reachable n) : ∃ late, n.Reached late := by
  induction hn with
  | fresh version settings keyring => exact ⟨[], .fresh version settings keyring⟩
  | step r _ hfit ih =>
    obtain ⟨late, hlate⟩ := ih
    exact ⟨r.unstaged late, hlate.step r hfit⟩

theorem Reached.reachable (hn : n.Reached late) : Reachable n := by
  induction hn with
  | fresh version settings keyring => exact .fresh version settings keyring
  | step r _ hfit ih => exact .step r ih hfit

theorem Request.Leaves.trusted {r : Request} (hr : r.Leaves c c') (hkeyed : c.Keyed) (hc : c.Trusted late) :
    c'.Trusted (r.unstaged late) := by
  cases r with
  | push payloads => exact hr ▸ hc.push payloads
  | stage => exact hr ▸ Contents.trusted_restage hkeyed
  | sync => exact hr ▸ hc
  | cleanup => exact hr ▸ Contents.trusted_empty
  | pass now =>
    rcases hr with rfl | rfl
    · exact Contents.trusted_empty
    · exact Contents.trusted_restage hkeyed

theorem Reached.sound (hn : n.Reached late) : ∃ c, n.Sound c ∧ c.Trusted late := by
  induction hn with
  | fresh version settings keyring => exact ⟨.empty, sound_fresh version settings keyring, Contents.trusted_empty⟩
  | step r _ hfit ih =>
    obtain ⟨c, hc, htrusted⟩ := ih
    obtain ⟨c', hr, hc'⟩ := hc.run r hfit
    exact ⟨c', hc', hr.trusted hc.faithful.keyed htrusted⟩

/-- What a staged row depends on has a row of a smaller stage, or of none if a payload of it came late. So a
synchronisation, which commits the rows in order, has committed all of it before, but for what came late. -/
theorem stages_trusted (hn : n.Reached late) :
    ∃ rows order, n.area.rows = .ok rows ∧ n.area.ordered = .ok order ∧
      (∀ e ∈ rows, ∀ k, e.2.stage = some k → ∀ d ∈ e.2.dependencies, ∃ e' ∈ rows, e'.2.hash = d ∧
        ((∃ m, e'.2.stage = some m ∧ m < k) ∨ e'.2.stage = none ∧ IsLate late d)) ∧
      (∀ pageSize, (backend.sync pageSize).eval n = n.replay .zero (order.flatMap Row.raws)) ∧
      ∀ done row todo, order = done ++ row :: todo → ∀ d ∈ row.dependencies,
        (∃ r ∈ done, r.hash = d) ∨ IsLate late d := by
  obtain ⟨c, hc, htrusted⟩ := hn.sound
  refine ⟨_, _, hc.holds.rows, hc.holds.ordered, fun e he k hk d hd => ?_, eval_sync hc.holds,
    fun done row todo ho d hd => htrusted.before hc.faithful.keyed ho hd⟩
  obtain ⟨e, hmem, rfl⟩ := List.mem_map.1 he
  obtain ⟨r, hr, hs⟩ := htrusted e.2 (List.mem_map_of_mem hmem) k hk d hd
  have hrow : (d.bytes, r) ∈ c.entries.map fun e => (e.1.bytes, e.2) :=
    List.mem_map.2 ⟨(d, r), SortedMap.get?_eq_some_iff.1 hr, rfl⟩
  exact ⟨_, hrow, hc.faithful.keyed d r hr, hs⟩

/-! ### A stage that is worth less -/

/-- The second of `samplePayloads`, on which the first depends. -/
def sampleBase : Payload := samplePayloads.getD 1 default

/-- The sample after a staging pass and another push of the payload that the other one depends on. -/
def restagedSample : Node := (Request.push [sampleBase.encode]).run (Request.stage.run sample)

theorem reached_restagedSample : restagedSample.Reached [sampleBase.encode] := by
  obtain ⟨late, hsample⟩ := reachable_sample.exists_reached
  exact (hsample.step .stage (by decide +kernel)).step (.push [sampleBase.encode]) (by decide +kernel)

/-- The rows of the sample: one with a stage, and the one that it depends on without. -/
theorem rows_restagedSample : ∃ rows, restagedSample.area.rows = .ok rows ∧
    (∃ e ∈ rows, e.2.stage = some 2 ∧ sampleBase.hash ∈ e.2.dependencies) ∧
    ∀ e ∈ rows, e.2.hash = sampleBase.hash → e.2.stage = none :=
  ⟨restagedSample.area.rows.toOption.getD [], by decide +kernel⟩

theorem restagedSample_trusted :
    ∃ rows, restagedSample.area.rows = .ok rows ∧
      ∃ e ∈ rows, e.2.stage = some 2 ∧ ∃ e' ∈ rows, e'.2.hash ∈ e.2.dependencies ∧ e'.2.stage = none ∧
        IsLate [sampleBase.encode] e'.2.hash := by
  obtain ⟨rows, order, hrows, -, hstages, -⟩ := stages_trusted reached_restagedSample
  obtain ⟨rows', hrows', ⟨e, he, hk, hd⟩, hnone⟩ := rows_restagedSample
  cases hrows.symm.trans hrows'
  obtain ⟨e', he', hh, ⟨m, hm, -⟩ | ⟨hs, hlate⟩⟩ := hstages e he 2 hk sampleBase.hash hd
  · exact nomatch (hnone e' he' hh).symm.trans hm
  · exact ⟨rows, hrows, e, he, hk, e', he', hh ▸ hd, hs, hh ▸ hlate⟩

/-- So not every stage of a reachable node can be relied on. -/
theorem stage_outlives_push : ¬ ∀ n, Reachable n → ∀ rows, n.area.rows = .ok rows →
    ∀ e ∈ rows, ∀ k, e.2.stage = some k → ∀ d ∈ e.2.dependencies,
      ∃ e' ∈ rows, e'.2.hash = d ∧ ∃ m, e'.2.stage = some m ∧ m < k := by
  intro hall
  obtain ⟨rows, hrows, ⟨e, he, hk, hd⟩, hnone⟩ := rows_restagedSample
  obtain ⟨e', he', hh, m, hm, -⟩ :=
    hall restagedSample reached_restagedSample.reachable rows hrows e he 2 hk sampleBase.hash hd
  exact nomatch (hnone e' he' hh).symm.trans hm

end Node

end TxRecovery
