import TxRecovery.Proofs.Node.History

/-!
# No pushed bytes stop recovery

Whatever bytes were pushed, a payload that reads is staged under the hash, mode and affected transactions that it reads
with, and rows of both stores read back. So on any node that serves requests a synchronisation runs through all staged
versions, and the only failure that a commit may end in is a privacy violation, which is counted
(`Ledger.commit_of_replay`); a recovery pass comes to its end; and a resend fails over keys and recipients alone
(`resend_error`). These are put together in `recovery_proceeds`.
-/

namespace TxRecovery

namespace Node

open Staging (Contents Row)

variable {n m : Node} {c : Contents}

theorem Sound.exists_runPass (hn : n.Sound c) (now : String) : ∃ s m, (Node.runPass now).eval n = (.ok s, m) := by
  by_cases hne : n.area.size = 0
  · exact ⟨none, n, eval_runPass_of_empty now hne⟩
  · obtain ⟨area, metrics, -, hholds⟩ := eval_stage hn
    obtain ⟨t, l, hr⟩ := (hn.restage hholds metrics).exists_replayed
    obtain ⟨s, m, heval, -⟩ := eval_runPass now hn hne hr
    exact ⟨some s, m, heval⟩

/-- In a keyed ledger every row reads, so that a resend does not fail over one. -/
theorem resend_error (hkeyed : n.ledger.Keyed) {request : ResendRequest} {e : ResendError}
    (h : (resend request).eval n = (.error e, m)) :
    (∀ d, e ≠ .payload (.decode d)) ∧ ∀ d, e ≠ .db d := by
  have hcases : (e = .enclaveUnavailable ∨ e = .invalidBatchSize ∨ ∃ k, e = .invalidPublicKey k) ∨
      ∃ target p, e = .payload (.recipientNotFound target) ∨ e = .keyNotFound p ∨ e = .enclaveUnavailable := by
    rcases resend_cases n request with ⟨e', heval, he⟩ | ⟨hstatus, hsize, target, ht⟩
    · rw [heval] at h
      cases h
      exact .inl he
    · have hcount : backend.ledgerSize.eval n = (.ok n.ledger.size, n) := rfl
      obtain ⟨batches, rest, s, heval, -⟩ := (backend_over hstatus hkeyed).resend ⟨rfl, rfl, rfl⟩ hcount ht hsize
      have hanswer : _ = Except.error e := congrArg Prod.fst (heval.symm.trans h)
      cases hf : (n.archive.scan target (n.archive.rows.take n.ledger.size)).2 with
      | none =>
        rw [hf] at hanswer
        exact nomatch hanswer
      | some e' =>
        rw [hf] at hanswer
        cases hanswer
        obtain ⟨done, row, later, hrows, hv, -⟩ := n.archive.exists_of_scan target hf
        have hmem : row ∈ n.archive.rows.take n.ledger.size := by
          rw [hrows]
          simp
        obtain ⟨p, hp, -⟩ := hkeyed.stores_of_mem (List.mem_of_mem_take hmem)
        exact .inr ⟨target, p.ciphertext, n.archive.verdict_error target hp hv⟩
  rcases hcases with (rfl | rfl | ⟨k, rfl⟩) | ⟨target, p, rfl | rfl | rfl⟩
  all_goals exact ⟨nofun, nofun⟩

/-- On a node that serves requests a synchronisation attempts every staged version and fails over none, each being committed or
refused on grounds of privacy; a pass comes to its end; and no resend fails over what is stored. -/
theorem recovery_proceeds (hn : Serving n) :
    (∃ order, n.area.ordered = .ok order ∧ ∀ pageSize, ∃ t l,
      (backend.sync pageSize).eval n = (.ok t, { n with ledger := l }) ∧
      t.attempted = (order.flatMap Row.raws).length ∧
      ∀ done raw todo, order.flatMap Row.raws = done ++ raw :: todo →
        (∃ h l', (n.ledger.replay .zero done).2.commit raw = .ok (h, l')) ∨
          ∃ v, (n.ledger.replay .zero done).2.commit raw = .error (.privacy v)) ∧
    (∀ now, ∃ s m, (runPass now).eval n = (.ok s, m)) ∧
    ∀ request e m, (resend request).eval n = (.error e, m) →
      (∀ d, e ≠ .payload (.decode d)) ∧ ∀ d, e ≠ .db d := by
  obtain ⟨c, hc, hkeyed⟩ := hn.exists_sound
  obtain ⟨t, l, hr⟩ := hc.exists_replayed
  refine ⟨⟨c.ordered, hc.holds.ordered, fun pageSize => ⟨t, l, eval_sync_of_pageSize hc.holds hr pageSize, ?_, ?_⟩⟩,
    hc.exists_runPass, fun _ _ _ => resend_error hkeyed⟩
  · rw [hr.attempted]
    exact Nat.zero_add _
  · intro done raw todo hq
    have hreplay := hr.replay
    rw [Contents.queue, hq] at hreplay
    exact Ledger.commit_of_replay hreplay

/-- The sample with both rows staged. -/
def stagedSample : Node := Request.stage.run sample

theorem recovery_proceeds_sample :
    (∃ order, stagedSample.area.ordered = .ok order ∧ ∀ pageSize, ∃ t l,
      (backend.sync pageSize).eval stagedSample = (.ok t, { stagedSample with ledger := l }) ∧
      t.attempted = (order.flatMap Row.raws).length) ∧
    (∃ s m, (runPass "").eval stagedSample = (.ok s, m)) ∧
    ∀ m e, (resend ⟨"", 1⟩).eval stagedSample = (.error e, m) → (∀ d, e ≠ .payload (.decode d)) ∧ ∀ d, e ≠ .db d := by
  obtain ⟨⟨order, horder, hsync⟩, hpass, hresend⟩ :=
    recovery_proceeds (reachable_sample.step .stage (by decide +kernel)).serving
  refine ⟨⟨order, horder, fun pageSize => ?_⟩, hpass "", fun m e => hresend ⟨"", 1⟩ e m⟩
  obtain ⟨t, l, heval, ht, -⟩ := hsync pageSize
  exact ⟨t, l, heval, ht⟩

end Node

end TxRecovery
