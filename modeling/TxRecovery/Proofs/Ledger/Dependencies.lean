import TxRecovery.Proofs.Ledger.Runs

/-!
# What stored payloads depend on

In a ledger built by commits a payload that is not standard private has all that it affects beside it, in its own mode
(`dependencies_stored`): it is checked when it comes, and what is stored neither goes nor changes its mode.

A standard private payload is held only against what is known when it comes. It is refused over a stored transaction
of another mode, so where it affects one, it was there first (`standard_stored_first`).
-/

namespace TxRecovery

namespace Ledger

variable {l l' : Ledger} {raw : Bytes} {raws : List Bytes} {p q s : Payload} {a h : TxHash}

structure Closed (l : Ledger) : Prop where
  affected : ∀ h s, l.payload? h = .ok (some s) → s.mode ≠ .standard →
    ∀ a ∈ s.affected.keys, ∃ q, l.payload? a = .ok (some q) ∧ q.mode = s.mode
  execHash : ∀ h s, l.payload? h = .ok (some s) → s.mode = .stateValidation → s.execHash ≠ []

theorem closed_empty : Ledger.empty.Closed := ⟨nofun, nofun⟩

theorem mayAffect_standard : l.MayAffect .standard a ↔ ∀ s, l.payload? a = .ok (some s) → s.mode = .standard := by
  simp only [MayAffect, PrivacyMode.isStandard, beq_self_eq_true, if_true, beq_iff_eq]

theorem mayAffect_of_ne {m : PrivacyMode} (hm : m ≠ .standard) :
    l.MayAffect m a ↔ ∃ s, l.payload? a = .ok (some s) ∧ s.mode = m := by
  simp only [MayAffect, PrivacyMode.isStandard, beq_iff_eq, hm, if_false]

theorem Closed.commit (hc : l.Closed) (hl : l.Sound) (hp : l.Committed raw p l') : l'.Closed := by
  refine ⟨fun h q hq hm a ha => ?_, fun h q hq hm => ?_⟩
  · -- in either case what is affected was stored before the commit
    have hbefore : ∃ s, l.payload? a = .ok (some s) ∧ s.mode = q.mode := by
      rcases hp.payload?_cases hl hq with ⟨s, hs, hsq⟩ | ⟨-, -, rfl⟩
      · rw [hsq.affected] at ha
        rw [hsq.mode] at hm ⊢
        exact hc.affected h s hs hm a ha
      · exact (mayAffect_of_ne hm).1 (hp.passes.affected a ha)
    obtain ⟨s, hs, hsm⟩ := hbefore
    obtain ⟨r, hr, hsr⟩ := hp.extends_ a s hs
    exact ⟨r, hr, hsr.mode.trans hsm⟩
  · rcases hp.payload?_cases hl hq with ⟨s, hs, hsq⟩ | ⟨-, -, rfl⟩
    · rw [hsq.execHash]
      exact hc.execHash h s hs (hsq.mode ▸ hm)
    · exact hp.passes.execHash hm

theorem closed_ofCommits (hfit : FitsThroughout raws) : (ofCommits raws).Closed :=
  (ofCommits_induct (P := fun _ l => l.Closed) closed_empty (fun _ _ _ hc => hc)
    (fun _ _ _ _ hl hc hp _ _ => hc.commit hl hp) hfit).2

theorem sound_ofCommits (hfit : FitsThroughout raws) : (ofCommits raws).Sound :=
  (ofCommits_induct (P := fun _ _ => True) trivial (fun _ _ _ _ => trivial) (fun _ _ _ _ _ _ _ _ _ => trivial)
    hfit).1

/-- Whatever was committed and in whatever order: every row reads back, all that a payload of another mode than
standard private affects is stored in its mode, and one with state validation has an execution hash. -/
theorem dependencies_stored (hfit : FitsThroughout raws) (h : TxHash) :
    (ofCommits raws).payload? h = .ok none ∨ ∃ s, (ofCommits raws).payload? h = .ok (some s) ∧
      (s.mode ≠ .standard → ∀ a ∈ s.affected.keys,
        ∃ q, (ofCommits raws).payload? a = .ok (some q) ∧ q.mode = s.mode) ∧
      (s.mode = .stateValidation → s.execHash ≠ []) := by
  have hc := closed_ofCommits hfit
  rcases (sound_ofCommits hfit).payload?_cases h with hnone | ⟨s, hs⟩
  · exact .inl hnone
  · exact .inr ⟨s, hs, hc.affected h s hs, hc.execHash h s hs⟩

/-- A payload with state validation, and one of the mode `m` that affects it. -/
def samplePair (m : PrivacyMode) : Payload × Payload :=
  let party (b : UInt8) : PublicKey := ⟨.replicate 32 b⟩
  let base : Payload := ⟨party 1, [1], default, [[1]], default, [party 2], .stateValidation, .empty, [9]⟩
  (base, { base with ciphertext := [2], mode := m, affected := .ofList [(base.hash, ⟨[7]⟩)] })

/-- The second of the pair, then the first, then the second again. -/
def sampleCommits (m : PrivacyMode) : List Bytes :=
  [(samplePair m).2, (samplePair m).1, (samplePair m).2].map Payload.encode

theorem sample_dependencies_stored :
    ∃ s, (ofCommits (sampleCommits .stateValidation)).payload? (samplePair .stateValidation).2.hash = .ok (some s) ∧
      (∀ a ∈ s.affected.keys, ∃ q, (ofCommits (sampleCommits .stateValidation)).payload? a = .ok (some q) ∧
        q.mode = s.mode) ∧ s.affected.keys ≠ [] ∧ s.execHash ≠ [] := by
  have hfit : FitsThroughout (sampleCommits .stateValidation) := by decide +kernel
  have hstored : (ofCommits (sampleCommits .stateValidation)).payload? (samplePair .stateValidation).2.hash =
      .ok (some (samplePair .stateValidation).2) := by decide +kernel
  rcases dependencies_stored hfit (samplePair .stateValidation).2.hash with hnone | ⟨s, hs, haffected, hexec⟩
  · exact nomatch hnone.symm.trans hstored
  · cases hstored.symm.trans hs
    exact ⟨_, hs, haffected (by decide), by decide, hexec (by decide)⟩

/-! ### Standard private payloads -/

theorem commit_refused (hl : l.Sound) (hp : Payload.decode raw = .ok p) (hm : p.mode = .standard)
    (ha : a ∈ p.affected.keys) (hq : l.payload? a = .ok (some q)) (hne : q.mode ≠ .standard) :
    ∃ v, l.commit raw = .error (.privacy v) := by
  rcases checkPrivacy_cases hl p with hc | ⟨e, hc, v, rfl⟩
  · have hmay := ((checkPrivacy_eq_ok hl).1 hc).2 a ha
    rw [hm, mayAffect_standard] at hmay
    exact absurd (hmay q hq) hne
  · exact ⟨v, commit_of_checkPrivacy hp hc⟩

/-- Where a standard private payload affects a stored transaction of another mode, there was a time when it was stored
and that transaction was not. -/
def StandardFirst (raws : List Bytes) (l : Ledger) : Prop :=
  ∀ h s a q, l.payload? h = .ok (some s) → l.payload? a = .ok (some q) → s.mode = .standard →
    a ∈ s.affected.keys → q.mode ≠ .standard →
    ∃ done, done <+: raws ∧ (ofCommits done).payload? a = .ok none ∧
      ∃ s₀, (ofCommits done).payload? h = .ok (some s₀) ∧ s₀.Extends s

theorem StandardFirst.commit (hf : StandardFirst raws (ofCommits raws)) (hl : (ofCommits raws).Sound)
    (hp : (ofCommits raws).Committed raw p l') : StandardFirst (raws ++ [raw]) l' := by
  intro h s a q hs hq hm ha hne
  rcases hp.payload?_cases hl hs with ⟨s₁, hs₁, hext⟩ | ⟨hnone, rfl, rfl⟩
  · rcases hp.payload?_cases hl hq with ⟨q₁, hq₁, hqext⟩ | ⟨hnone, -, -⟩
    · rw [hext.mode] at hm
      rw [hext.affected] at ha
      rw [hqext.mode] at hne
      obtain ⟨done, hdone, habsent, s₀, hs₀, hext₀⟩ := hf h s₁ a q₁ hs₁ hq₁ hm ha hne
      exact ⟨done, hdone.trans (List.prefix_append _ _), habsent, s₀, hs₀, hext₀.trans hext⟩
    · exact ⟨raws, List.prefix_append _ _, hnone, s₁, hs₁, hext⟩
  · -- the payload came last, so it was held against what it affects
    have hmay := hp.passes.affected a ha
    rw [hm, mayAffect_standard] at hmay
    rcases hp.payload?_cases hl hq with ⟨q₁, hq₁, hqext⟩ | ⟨-, -, rfl⟩
    · exact absurd (hqext.mode.trans (hmay q₁ hq₁)) hne
    · exact absurd hm hne

theorem standardFirst_ofCommits (hfit : FitsThroughout raws) : StandardFirst raws (ofCommits raws) := by
  refine (ofCommits_induct (P := StandardFirst) nofun (fun raws raw l hf h s a q hs hq hm ha hne => ?_)
    (fun _ _ _ _ hl hf hp _ _ => hf.commit hl hp) hfit).2
  obtain ⟨done, hdone, hrest⟩ := hf h s a q hs hq hm ha hne
  exact ⟨done, hdone.trans (List.prefix_append _ _), hrest⟩

/-- A standard private payload that affects a stored transaction of another mode is refused. So one that is stored
beside such a transaction was stored first. -/
theorem standard_stored_first (hfit : FitsThroughout raws) (hq : (ofCommits raws).payload? a = .ok (some q))
    (hne : q.mode ≠ .standard) :
    (∀ raw p, Payload.decode raw = .ok p → p.mode = .standard → a ∈ p.affected.keys →
      ∃ v, (ofCommits raws).commit raw = .error (.privacy v)) ∧
    ∀ h s, (ofCommits raws).payload? h = .ok (some s) → s.mode = .standard → a ∈ s.affected.keys →
      ∃ done, done <+: raws ∧ (ofCommits done).payload? a = .ok none ∧
        ∃ s₀, (ofCommits done).payload? h = .ok (some s₀) ∧ s₀.Extends s :=
  ⟨fun _ _ hp hm ha => commit_refused (sound_ofCommits hfit) hp hm ha hq hne,
    fun h s hs hm ha => standardFirst_ofCommits hfit h s a q hs hq hm ha hne⟩

theorem stored_sampleCommits :
    FitsThroughout (sampleCommits .standard) ∧
    (ofCommits (sampleCommits .standard)).payload? (samplePair .standard).1.hash =
      .ok (some (samplePair .standard).1) ∧
    (ofCommits (sampleCommits .standard)).payload? (samplePair .standard).2.hash =
      .ok (some (samplePair .standard).2) ∧
    (samplePair .standard).1.hash ∈ (samplePair .standard).2.affected.keys := by
  decide +kernel

theorem sample_standard_stored_first :
    (∃ v, (ofCommits (sampleCommits .standard)).commit (samplePair .standard).2.encode = .error (.privacy v)) ∧
    ∃ done, done <+: sampleCommits .standard ∧ (ofCommits done).payload? (samplePair .standard).1.hash = .ok none ∧
      ∃ s, (ofCommits done).payload? (samplePair .standard).2.hash = .ok (some s) := by
  obtain ⟨hfit, hbase, hdependent, hmem⟩ := stored_sampleCommits
  obtain ⟨hrefused, hfirst⟩ := standard_stored_first hfit hbase (by decide)
  have hdecode : Payload.decode (samplePair .standard).2.encode = .ok (samplePair .standard).2 := by decide +kernel
  obtain ⟨done, hdone, habsent, s, hs, -⟩ := hfirst _ _ hdependent rfl hmem
  exact ⟨hrefused _ _ hdecode rfl hmem, done, hdone, habsent, s, hs⟩

/-- So a standard private payload does come to affect a stored transaction of another mode. -/
theorem standard_affects_other : ¬ ∀ raws, FitsThroughout raws → ∀ h s a q,
    (ofCommits raws).payload? h = .ok (some s) → s.mode = .standard → a ∈ s.affected.keys →
    (ofCommits raws).payload? a = .ok (some q) → q.mode = .standard := by
  intro hall
  obtain ⟨hfit, hbase, hdependent, hmem⟩ := stored_sampleCommits
  exact absurd (hall _ hfit _ _ _ _ hdependent rfl hmem hbase) (by decide)

end Ledger

end TxRecovery
