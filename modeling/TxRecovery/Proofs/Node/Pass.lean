import TxRecovery.Proofs.Node.Sound

/-!
# What a recovery pass does

A pass over an area with rows runs to its end (`eval_runPass`). It empties the area if everything
`Settles`: as many rows are staged as there are, some version was attempted and none refused. Otherwise
the area holds what a staging pass made of it.
-/

namespace TxRecovery

namespace Node

open Staging (Area Contents Row)

variable {n : Node} {c : Contents} {t : Tally} {l : Ledger} {now : String}

theorem eval_areaSize (n : Node) :
    (backend.areaSize.mapError ResendError.db).eval n = (.ok n.area.size, n) := rfl

theorem eval_runPassWith_of_empty (arrivals : Arrivals) (now : String) (hn : n.area.size = 0) :
    (runPassWith now arrivals).eval n = (.ok none, n) := by
  unfold runPassWith
  rw [Op.eval_bind_ok (eval_areaSize n), if_pos hn]
  rfl

theorem eval_runPass_of_empty (now : String) (hn : n.area.size = 0) : (runPass now).eval n = (.ok none, n) :=
  eval_runPassWith_of_empty .none now hn

theorem eval_countStaged (hc : n.area.Holds c) :
    countStaged.eval n = (.ok (c.values.countP fun row => row.stage.isSome), n) := by
  unfold countStaged
  rw [Op.eval_mapError]
  show (n.area.countStaged.mapError _, n) = _
  rw [hc.countStaged]
  rfl

theorem eval_areaUnchanged (hc : n.area.Holds c) (staged : Nat) :
    (areaUnchanged staged).eval n =
      (.ok (decide (c.size = staged ∧ (c.values.countP fun row => row.stage.isSome) = staged)), n) := by
  unfold areaUnchanged
  rw [Op.eval_bind_ok (eval_areaSize n), hc.size]
  split
  · rename_i hs
    rw [Op.eval_bind_ok (eval_countStaged hc)]
    simp [hs]
  · rename_i hs
    simp [hs]

structure Settles (c : Contents) (t : Tally) : Prop where
  staged : c.stageable = c.size
  attempted : 0 < t.attempted
  violations : t.violations = 0

theorem settles_iff (hne : c.size ≠ 0) :
    Outcome.ofStaging c.size c.stageable = .success ∧ t.outcome = .success ↔ Settles c t := by
  rw [Outcome.ofStaging_eq_success_iff, Tally.outcome, Outcome.ofSync_eq_success_iff]
  exact ⟨fun h => ⟨h.1.1, h.2.1, h.2.2⟩, fun h => ⟨⟨h.staged, hne⟩, h.attempted, h.violations⟩⟩

/-- A pass whose steps do not fail, whatever arrives in between: it cleans up if staging and synchronisation were a
success and the check found the area unchanged. In any case it counts the rows that it leaves. -/
theorem eval_runPassWith (arrivals : Arrivals) {staging : Outcome} {staged : Nat} {unchanged : Bool}
    {n₁ n₂ n₃ n₄ : Node} (now : String) (hne : n.area.size ≠ 0)
    (hstage : (stageThen arrivals.afterStaging).eval n = (.ok staging, n₁))
    (hcount : countStaged.eval n₁ = (.ok staged, n₁))
    (hcounted : arrivals.afterCount.eval n₁ = (.ok (), n₂))
    (hsync : (syncThen arrivals.afterSync).eval n₂ = (.ok t, n₃))
    (hcheck : (areaUnchanged staged).eval n₃ = (.ok unchanged, n₃))
    (hchecked : arrivals.afterCheck.eval n₃ = (.ok (), n₄)) :
    ∃ s m, (runPassWith now arrivals).eval n = (.ok (some s), m) ∧ m.ledger = n₄.ledger ∧
      m.metrics = { n₄.metrics with
        stagingRows := m.area.size
        recoveryPasses := n₄.metrics.recoveryPasses + 1 } ∧
      ((staging = .success ∧ t.outcome = .success) ∧ unchanged = true ∧
          s.cleaned = some n₄.area.size ∧ m.area = .empty ∨
        ¬ ((staging = .success ∧ t.outcome = .success) ∧ unchanged = true) ∧
          s.cleaned = none ∧ m.area = n₄.area) := by
  unfold runPassWith
  rw [Op.eval_bind_ok (eval_areaSize n), if_neg hne, Op.eval_bind_ok hstage, Op.eval_bind_ok hcount,
    Op.eval_bind_ok hcounted, Op.eval_bind_ok hsync]
  by_cases hs : staging = .success ∧ t.outcome = .success
  · rw [if_pos hs, Op.eval_bind_ok hcheck, Op.eval_bind_ok hchecked]
    cases unchanged with
    | true =>
      rw [if_pos rfl, Op.eval_bind_ok (Op.eval_map_ok some (eval_cleanup n₄))]
      exact ⟨_, _, rfl, rfl, rfl, .inl ⟨hs, rfl, rfl, rfl⟩⟩
    | false => exact ⟨_, _, rfl, rfl, rfl, .inr ⟨fun h => Bool.false_ne_true h.2, rfl, rfl⟩⟩
  · rw [if_neg hs, Op.eval_bind_ok (Op.eval_pure false n₃), Op.eval_bind_ok hchecked]
    exact ⟨_, _, rfl, rfl, rfl, .inr ⟨fun h => hs h.1, rfl, rfl⟩⟩

/-- The counters after a pass that synchronised with `t` and left `rows` rows. -/
def countPass (m : Metrics) (t : Tally) (rows : Nat) : Metrics :=
  { m with
    stagingPasses := m.stagingPasses + 1
    versionsCommitted := m.versionsCommitted + t.committed
    privacyViolations := m.privacyViolations + t.violations
    stagingRows := rows
    recoveryPasses := m.recoveryPasses + 1 }

theorem eval_runPass_counted (now : String) (hn : n.Sound c) (hne : n.area.size ≠ 0)
    (hr : n.ledger.Replayed .zero c.restage.queue t l) :
    ∃ s m, (runPass now).eval n = (.ok (some s), m) ∧ m.ledger = l ∧ m.metrics = countPass n.metrics t m.area.size ∧
      (Settles c t ∧ s.cleaned = some c.size ∧ m.area = .empty ∨
        ¬ Settles c t ∧ s.cleaned = none ∧ m.area.Holds c.restage) := by
  obtain ⟨area, -, hsound, hstage⟩ := eval_stageThen (f := id) hn.area_sound (Op.eval_pure ())
  have hholds := hsound.holds
  obtain ⟨-, hsync⟩ := eval_syncThen (f := id) (n := { n with area }.count fun m =>
    { m with stagingPasses := m.stagingPasses + 1 }) hholds hr (Op.eval_pure ())
  have hcount := eval_countStaged (n := { n with area }.count fun m =>
    { m with stagingPasses := m.stagingPasses + 1 }) hholds
  have hcheck := fun metrics => eval_areaUnchanged (n := { n with area, metrics, ledger := l }) hholds c.stageable
  have hsize : area.size = c.size := by rw [hholds.size, c.size_restage]
  have hiff := settles_iff (t := t) (hn.holds.size ▸ hne)
  have hunchanged : c.restage.size = c.stageable ∧
      (c.restage.values.countP fun row => row.stage.isSome) = c.stageable ↔ c.stageable = c.size := by
    rw [c.size_restage]
    exact ⟨fun h => h.1.symm, fun h => ⟨h.symm, rfl⟩⟩
  obtain ⟨s, m, heval, hledger, hmetrics, hend⟩ :=
    eval_runPassWith .none now hne hstage hcount (Op.eval_pure _ _) hsync (hcheck _) (Op.eval_pure _ _)
  refine ⟨s, m, heval, hledger, hmetrics, ?_⟩
  rw [decide_eq_true_iff, hunchanged] at hend
  rcases hend with ⟨hs, -, hcleaned, harea⟩ | ⟨hs, hcleaned, harea⟩
  · exact .inl ⟨hiff.1 hs, hcleaned.trans (congrArg some hsize), harea⟩
  · exact .inr ⟨fun h => hs ⟨hiff.2 h, h.staged⟩, hcleaned, harea ▸ hholds⟩

theorem eval_runPass (now : String) (hn : n.Sound c) (hne : n.area.size ≠ 0)
    (hr : n.ledger.Replayed .zero c.restage.queue t l) :
    ∃ s m, (runPass now).eval n = (.ok (some s), m) ∧ m.ledger = l ∧
      (Settles c t ∧ s.cleaned = some c.size ∧ m.area = .empty ∨
        ¬ Settles c t ∧ s.cleaned = none ∧ m.area.Holds c.restage) := by
  obtain ⟨s, m, heval, hledger, -, hend⟩ := eval_runPass_counted now hn hne hr
  exact ⟨s, m, heval, hledger, hend⟩

theorem Sound.runPass (hn : n.Sound c) (hfit : ((Node.runPass now).eval n).2.Fits) :
    ∃ c', (c' = .empty ∨ c' = c.restage) ∧ ((Node.runPass now).eval n).2.Sound c' := by
  by_cases hne : n.area.size = 0
  · rw [eval_runPass_of_empty now hne]
    have hsize : c.size = 0 := hn.holds.size.symm.trans hne
    exact ⟨c, .inl (SortedMap.ext (List.eq_nil_of_length_eq_zero hsize)), hn⟩
  · obtain ⟨area, metrics, -, hholds⟩ := eval_stage hn
    have hstaged := hn.restage hholds metrics
    obtain ⟨t, l, hr⟩ := hstaged.exists_replayed
    obtain ⟨s, m, heval, rfl, hend⟩ := eval_runPass now hn hne hr
    rw [heval] at hfit ⊢
    rcases hend with ⟨-, -, harea⟩ | ⟨-, -, harea⟩
    · exact ⟨.empty, .inl rfl, harea ▸ Area.holds_empty, Contents.faithful_empty, hr.sound, hfit.ledger,
        by decide, nofun⟩
    · exact ⟨c.restage, .inr rfl, harea, hstaged.faithful, hr.sound, hfit.ledger, hstaged.size,
        hstaged.rawBytes⟩

end Node

end TxRecovery
