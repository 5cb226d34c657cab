import TxRecovery.Proofs.Ledger.Settled
import TxRecovery.Proofs.Ledger.Verdict
import TxRecovery.Proofs.Node.Evaluation

/-!
# What one commit does to a node

A commit that fails leaves the node as it is, and it fails over bytes that are no payload and over payloads that do not
pass, never over anything else (`Ledger.commit_error`). One that is accepted writes to the row of its transaction
alone (`Ledger.get?_of_commit`). Over what it leaves behind the checks come out as before, since of all they read only
the transaction's own row has changed, and that is there in its own mode; so it is accepted again, and as its
recipients are listed by then it adds nothing (`Ledger.Committed.commit_again`).
-/

namespace TxRecovery

namespace Ledger

variable {l l' : Ledger} {raw : Bytes} {p : Payload} {h : TxHash}

/-- Why a commit fails. -/
theorem commit_error {e : CommitError} (hl : l.Sound) (hc : l.commit raw = .error e) :
    (∃ d, Payload.decode raw = .error d ∧ e = .payload d) ∨
      ∃ p v, Payload.decode raw = .ok p ∧ ¬ l.Passes p ∧ e = .privacy v := by
  cases hp : Payload.decode raw with
  | error d =>
    have hfail : l.commit raw = .error (.payload d) := by
      simp only [Ledger.commit, hp, Except.mapError, bind, Except.bind]
    cases hfail.symm.trans hc
    exact .inl ⟨d, rfl, rfl⟩
  | ok p =>
    rcases commit_verdict hl hp with ⟨-, l', hok⟩ | ⟨hpass, v, hrefused⟩
    · cases hok.symm.trans hc
    · cases hrefused.symm.trans hc
      exact .inr ⟨p, v, rfl, hpass, rfl⟩

theorem get?_of_commit (hc : l.commit raw = .ok (h, l')) {k : Bytes} (hk : k ≠ h.bytes) :
    l'.tree.get? k = l.tree.get? k := by
  obtain ⟨p, -, rfl, -, hend⟩ := exists_of_commit hc
  rcases hend with ⟨-, rfl⟩ | ⟨s, -, -, rfl⟩
  · exact SortedMap.get?_insert_of_ne _ hk _
  · split
    · rfl
    · exact SortedMap.get?_insert_of_ne _ hk _

/-- What passed the checks passes them again, also if it affects itself. -/
theorem Committed.passes_again (hc : l.Committed raw p l') : l'.Passes p := by
  obtain ⟨q, hq, hm, -⟩ := hc.covers
  have hown : ∀ s, l'.payload? p.hash = .ok (some s) → s.mode = p.mode := by
    intro s hs
    cases hq.symm.trans hs
    exact hm
  refine ⟨hc.passes.execHash, fun a ha => ?_, hown⟩
  by_cases hself : a = p.hash
  · subst hself
    exact (mayAffect_self hown).2 (.inr ⟨q, hq⟩)
  · exact (mayAffect_congr (payload?_congr (hc.frame a hself))).2 (hc.passes.affected a ha)

theorem Committed.commit_again (hc : l.Committed raw p l') (hp : Payload.decode raw = .ok p) :
    l'.commit raw = .ok (p.hash, l') :=
  commit_covered hp ((passes_iff hc.sound).1 hc.passes_again).1 hc.covers

end Ledger

namespace Node

variable {n : Node} {raw : Bytes}

/-- A commit over a ledger that reads back fails and changes nothing, or else the ledger has the payload under its hash
afterwards, every other row is as it was, and the same commit changes nothing any more. -/
theorem commit_atomic (hl : n.ledger.Sound) (hfit : FitsInMemory ((backend.commit raw).eval n).2.ledger.tree) :
    (∃ e, (backend.commit raw).eval n = (.error e, n) ∧
      ((∃ d, Payload.decode raw = .error d ∧ e = .payload d) ∨
        ∃ p v, Payload.decode raw = .ok p ∧ ¬ n.ledger.Passes p ∧ e = .privacy v)) ∨
    ∃ p l, Payload.decode raw = .ok p ∧ n.ledger.Passes p ∧
      (backend.commit raw).eval n = (.ok p.hash, { n with ledger := l }) ∧
      (∀ k, k ≠ p.hash.bytes → l.tree.get? k = n.ledger.tree.get? k) ∧ l.Covers p ∧
      (backend.commit raw).eval { n with ledger := l } = (.ok p.hash, { n with ledger := l }) := by
  rw [eval_commit] at hfit ⊢
  cases hc : n.ledger.commit raw with
  | error e => exact .inl ⟨e, rfl, Ledger.commit_error hl hc⟩
  | ok r =>
    obtain ⟨h, l⟩ := r
    rw [hc] at hfit
    obtain ⟨p, hp, rfl, -⟩ := Ledger.exists_of_commit hc
    have hcommitted := Ledger.committed_of_commit hl hp hc hfit
    refine .inr ⟨p, l, hp, hcommitted.passes, rfl, fun k hk => Ledger.get?_of_commit hc hk, hcommitted.covers, ?_⟩
    rw [eval_commit]
    simp only [hcommitted.commit_again hp]

/-- A node that has stored the first payload of `Ledger.samplePair`. -/
def sampleHolding : Node :=
  { fresh "" .standard ⟨.standard, .started, .empty⟩ with
    ledger := .ofCommits [(Ledger.samplePair .stateValidation).1.encode] }

/-- A view of that payload which affects itself, lists a recipient twice and one without a box, and ends on a byte too
many. -/
def sampleReferring : Bytes :=
  let p := (Ledger.samplePair .stateValidation).1
  let view := { p with
    recipients := [⟨.replicate 32 3⟩, ⟨.replicate 32 3⟩, ⟨.replicate 32 4⟩]
    boxes := [[2], [3]]
    affected := .ofList [(p.hash, ⟨[7]⟩)] }
  view.encode ++ [0]

theorem commit_atomic_sample : sampleHolding.ledger.Sound ∧
    FitsInMemory ((backend.commit sampleReferring).eval sampleHolding).2.ledger.tree ∧
    ∃ p l, Payload.decode sampleReferring = .ok p ∧ p.hash ∈ p.affected.keys ∧ l.Covers p ∧
      (backend.commit sampleReferring).eval sampleHolding = (.ok p.hash, { sampleHolding with ledger := l }) ∧
      (backend.commit sampleReferring).eval { sampleHolding with ledger := l } =
        (.ok p.hash, { sampleHolding with ledger := l }) := by
  have hl : sampleHolding.ledger.Sound := Ledger.sound_ofCommits (by decide +kernel)
  have hfit : FitsInMemory ((backend.commit sampleReferring).eval sampleHolding).2.ledger.tree := by decide +kernel
  have hself : ∀ p ∈ (Payload.decode sampleReferring).toOption, p.hash ∈ p.affected.keys := by decide +kernel
  have hok : ((backend.commit sampleReferring).eval sampleHolding).1.isOk = true := by decide +kernel
  refine ⟨hl, hfit, ?_⟩
  rcases commit_atomic hl hfit with ⟨e, hfail, -⟩ | ⟨p, l, hp, -, hcommit, -, hcovers, hagain⟩
  · rw [hfail] at hok
    exact nomatch hok
  · exact ⟨p, l, hp, hself p (mem_toOption.2 hp), hcovers, hcommit, hagain⟩

end Node

end TxRecovery
