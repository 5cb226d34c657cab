import Mathlib.Order.Bounds.Defs
import TxRecovery.Proofs.Staging.Contents

/-!
# Stages are lengths of chains

`Needs rows h d`: some version of the row of `h` affects the transaction `d`. Each round stages all that it can
(`Prompt`), so a stage is the least one above the stages of what the row needs (`exists_stage_of_needs`,
`stage_tight`), and a row is left without a stage only if a chain of needs leads to a hash without a row or into a
cycle (`stages_eq_none_iff`). `Contents.Keyed.atDepth_restage` says so of the rows after a staging pass, whatever
stages they had before.
-/

namespace TxRecovery

namespace Staging

open Relation (ReflTransGen TransGen)

variable {rows : List Row} {row : Row} {round n m : Nat} {s : Stages} {h d : TxHash}

/-! ### Rounds stage all they can -/

/-- What is staged needs something of the stage before, and what is left still needed something in the last round. -/
structure Prompt (rows : List Row) (round : Nat) (s : Stages) : Prop extends Rounds rows round s where
  tight : ∀ h n, s.get? h = some n → ∃ row ∈ rows, row.hash = h ∧
    (n = 1 ∨ ∃ d ∈ row.dependencies, ∃ m, s.get? d = some m ∧ n = m + 1)
  waiting : ∀ row ∈ rows, s.get? row.hash = none →
    round = 1 ∨ ∃ d ∈ row.dependencies, ∀ m, s.get? d = some m → round = m + 1

theorem prompt_empty (rows : List Row) : Prompt rows 1 .empty :=
  ⟨rounds_empty rows, nofun, fun _ _ _ => .inl rfl⟩

theorem Prompt.step (hs : Prompt rows round s) (hr : ready rows s ≠ []) :
    Prompt rows (round + 1) (stageAll round (ready rows s) s) := by
  refine ⟨hs.toRounds.step hr, fun h n hn => ?_, fun row hrow hnone => ?_⟩
  · rcases get?_stageAll_ready_cases hn with hn | ⟨rfl, row, hrow, rfl⟩
    · obtain ⟨row, hrow, hh, hone | ⟨d, hd, m, hm, hnm⟩⟩ := hs.tight h n hn
      · exact ⟨row, hrow, hh, .inl hone⟩
      · exact ⟨row, hrow, hh, .inr ⟨d, hd, m, get?_stageAll_ready hm, hnm⟩⟩
    · obtain ⟨hmem, hnone, hdeps⟩ := mem_ready.1 hrow
      refine ⟨row, hmem, rfl, (hs.waiting row hmem hnone).imp_right ?_⟩
      rintro ⟨d, hd, hlast⟩
      obtain ⟨m, hm⟩ := hdeps d hd
      exact ⟨d, hd, m, get?_stageAll_ready hm, hlast m hm⟩
  · have hbefore : s.get? row.hash = none := by
      rw [Option.eq_none_iff_forall_ne_some]
      intro n hn
      exact nomatch hnone.symm.trans (get?_stageAll_ready hn)
    have hnot : row ∉ ready rows s := fun hmem => nomatch hnone.symm.trans (get?_stageAll_of_mem hmem)
    obtain ⟨d, hd, hopen⟩ : ∃ d ∈ row.dependencies, s.get? d = none := by
      by_contra hall
      refine hnot (mem_ready.2 ⟨hrow, hbefore, fun d hd => ?_⟩)
      exact Option.ne_none_iff_exists'.1 fun hopen => hall ⟨d, hd, hopen⟩
    refine .inr ⟨d, hd, fun m hm => ?_⟩
    rcases get?_stageAll_ready_cases hm with hm | ⟨rfl, -⟩
    · exact nomatch hopen.symm.trans hm
    · rfl

theorem prompt_stages (rows : List Row) : ∃ round, Prompt rows round (stages rows) := by
  obtain ⟨round, hs, -⟩ := stagesFrom_induct (fun _ _ hs hr => Prompt.step hs hr) (prompt_empty rows)
  exact ⟨round, hs⟩

/-! ### Chains -/

/-- Some version of the row of `h` affects `d`, which is another transaction. -/
def Needs (rows : List Row) (h d : TxHash) : Prop :=
  ∃ row ∈ rows, row.hash = h ∧ ∃ v ∈ row.versions.values, d ∈ v.affected.keys ∧ d ≠ h

theorem needs_iff : Needs rows h d ↔ ∃ row ∈ rows, row.hash = h ∧ d ∈ row.dependencies := by
  constructor
  · rintro ⟨row, hrow, rfl, v, hv, hd, hne⟩
    exact ⟨row, hrow, rfl, Row.mem_dependencies.2 ⟨⟨v, hv, hd⟩, hne⟩⟩
  · rintro ⟨row, hrow, rfl, hd⟩
    obtain ⟨⟨v, hv, hd⟩, hne⟩ := Row.mem_dependencies.1 hd
    exact ⟨row, hrow, rfl, v, hv, hd, hne⟩

theorem needs_of_mem (hrow : row ∈ rows) (hd : d ∈ row.dependencies) : Needs rows row.hash d :=
  needs_iff.2 ⟨row, hrow, rfl, hd⟩

/-- A chain of needs leads from `h` to a hash without a row, or into a cycle. -/
def Stuck (rows : List Row) (h : TxHash) : Prop :=
  ∃ d, ReflTransGen (Needs rows) h d ∧ ((∀ row ∈ rows, row.hash ≠ d) ∨ TransGen (Needs rows) d d)

section

variable (hinj : ∀ r ∈ rows, ∀ r' ∈ rows, r.hash = r'.hash → r = r')

include hinj

theorem exists_stage_of_needs (hn : (stages rows).get? h = some n) (hd : Needs rows h d) :
    ∃ m, (stages rows).get? d = some m ∧ m < n := by
  obtain ⟨row, hrow, rfl, hdep⟩ := needs_iff.1 hd
  exact exists_stage_lt hinj hrow hn hdep

theorem exists_stage_of_transGen (hd : TransGen (Needs rows) h d) (hn : (stages rows).get? h = some n) :
    ∃ m, (stages rows).get? d = some m ∧ m < n := by
  induction hd with
  | single hd => exact exists_stage_of_needs hinj hn hd
  | tail _ hd ih =>
    obtain ⟨m, hm, hlt⟩ := ih
    obtain ⟨k, hk, hlt'⟩ := exists_stage_of_needs hinj hm hd
    exact ⟨k, hk, Nat.lt_trans hlt' hlt⟩

/-- Along a chain stages fall, so it ends, and at a row. -/
theorem not_stuck_of_stage (hn : (stages rows).get? h = some n) : ¬ Stuck rows h := by
  rintro ⟨d, hd, hend⟩
  obtain ⟨m, hm⟩ : ∃ m, (stages rows).get? d = some m := by
    rcases Relation.reflTransGen_iff_eq_or_transGen.1 hd with rfl | hd
    · exact ⟨n, hn⟩
    · obtain ⟨m, hm, -⟩ := exists_stage_of_transGen hinj hd hn
      exact ⟨m, hm⟩
  rcases hend with hnone | hcycle
  · obtain ⟨row, hrow, hh⟩ := exists_row_of_stage hm
    exact hnone row hrow hh
  · obtain ⟨k, hk, hlt⟩ := exists_stage_of_transGen hinj hcycle hm
    cases hm.symm.trans hk
    exact absurd hlt (Nat.lt_irrefl _)

/-- A stage is no greater than what is needed makes it. -/
theorem stage_tight (hn : (stages rows).get? h = some n) :
    (n = 1 ∧ ∀ d, ¬ Needs rows h d) ∨ ∃ d m, Needs rows h d ∧ (stages rows).get? d = some m ∧ n = m + 1 := by
  obtain ⟨round, hs⟩ := prompt_stages rows
  obtain ⟨row, hrow, rfl, rfl | ⟨d, hd, m, hm, hnm⟩⟩ := hs.tight h n hn
  · refine .inl ⟨rfl, fun d hd => ?_⟩
    obtain ⟨m, hm, hlt⟩ := exists_stage_of_needs hinj hn hd
    have := (hs.lt d m hm).1
    omega
  · exact .inr ⟨d, m, needs_of_mem hrow hd, hm, hnm⟩

end

/-- What is not stuck is staged: what it needs is neither, so this goes by induction down the chains. -/
theorem exists_stage_of_not_stuck (hfree : ¬ Stuck rows h) : ∃ n, (stages rows).get? h = some n := by
  -- the needs of what `h` reaches; those of other rows may well go round
  let R d g := ReflTransGen (Needs rows) h g ∧ Needs rows g d
  have hrows : ∀ {d}, ReflTransGen (Needs rows) h d → ∃ r ∈ rows, r.hash = d := by
    intro d hd
    by_contra hnone
    exact hfree ⟨d, hd, .inl fun r hr hh => hnone ⟨r, hr, hh⟩⟩
  have hwf : WellFounded R := by
    refine wellFounded_of_acyclic (rows.map Row.hash) ?_ fun g hcycle => ?_
    · rintro d g ⟨hreach, hneed⟩
      exact ⟨List.mem_map.2 (hrows (hreach.tail hneed)), List.mem_map.2 (hrows hreach)⟩
    · obtain ⟨d, -, hreach, -⟩ := TransGen.tail'_iff.1 hcycle
      have hneeds : TransGen (Needs rows) g g := by
        rw [← Relation.transGen_swap]
        exact TransGen.mono (fun _ _ hR => hR.2) _ _ hcycle
      exact hfree ⟨g, hreach, .inr hneeds⟩
  suffices hall : ∀ g, ReflTransGen (Needs rows) h g → ∃ n, (stages rows).get? g = some n from hall h .refl
  intro g
  induction g using hwf.induction with
  | _ g ih =>
    intro hreach
    obtain ⟨r, hr, rfl⟩ := hrows hreach
    refine mem_stages_of_dependencies hr fun d hd => ?_
    have hneed := needs_of_mem hr hd
    exact ih d ⟨hreach, hneed⟩ (hreach.tail hneed)

theorem stages_eq_none_iff (hinj : ∀ r ∈ rows, ∀ r' ∈ rows, r.hash = r'.hash → r = r') :
    (stages rows).get? h = none ↔ Stuck rows h := by
  constructor
  · intro hnone
    by_contra hfree
    obtain ⟨n, hn⟩ := exists_stage_of_not_stuck hfree
    exact nomatch hnone.symm.trans hn
  · intro hstuck
    rw [Option.eq_none_iff_forall_ne_some]
    exact fun n hn => not_stuck_of_stage hinj hn hstuck

theorem stages_eq_one_iff (hinj : ∀ r ∈ rows, ∀ r' ∈ rows, r.hash = r'.hash → r = r') (hrow : row ∈ rows) :
    (stages rows).get? row.hash = some 1 ↔ ∀ d, ¬ Needs rows row.hash d := by
  constructor
  · intro hone d hd
    obtain ⟨m, hm, hlt⟩ := exists_stage_of_needs hinj hone hd
    have := (stage_bounds hm).1
    omega
  · intro hfree
    obtain ⟨n, hn⟩ := mem_stages_of_dependencies hrow fun d hd => absurd (needs_of_mem hrow hd) (hfree d)
    rcases stage_tight hinj hn with ⟨rfl, -⟩ | ⟨d, m, hd, -⟩
    · exact hn
    · exact absurd hd (hfree d)

/-- If anything is staged, some row needs nothing: the one that stages were counted from. -/
theorem exists_of_stage (hinj : ∀ r ∈ rows, ∀ r' ∈ rows, r.hash = r'.hash → r = r')
    (hn : (stages rows).get? h = some n) : ∃ row ∈ rows, ∀ d, ¬ Needs rows row.hash d := by
  induction n using Nat.strongRecOn generalizing h with
  | _ n ih =>
    rcases stage_tight hinj hn with ⟨-, hfree⟩ | ⟨d, m, -, hm, rfl⟩
    · obtain ⟨row, hrow, rfl⟩ := exists_row_of_stage hn
      exact ⟨row, hrow, hfree⟩
    · exact ih m (Nat.lt_succ_self m) hm

/-! ### The rows after a pass -/

/-- No version affects another transaction. -/
def Row.Free (row : Row) : Prop := ∀ v ∈ row.versions.values, ∀ d ∈ v.affected.keys, d = row.hash

theorem free_iff (hinj : ∀ r ∈ rows, ∀ r' ∈ rows, r.hash = r'.hash → r = r') (hrow : row ∈ rows) :
    row.Free ↔ ∀ d, ¬ Needs rows row.hash d := by
  constructor
  · rintro hfree d ⟨r, hr, hh, v, hv, hd, hne⟩
    cases hinj r hr row hrow hh
    exact hne (hfree v hv d hd)
  · intro hfree v hv d hd
    by_contra hne
    exact hfree d ⟨row, hrow, rfl, v, hv, hd, hne⟩

/-- A row of `d` has stage `m`. -/
def StageOf (rows : List Row) (d : TxHash) (m : Nat) : Prop := ∃ r ∈ rows, r.hash = d ∧ r.stage = some m

/-- The stage of the row is its depth: the length of the longest chain of needs that starts with it. -/
structure Row.AtDepth (rows : List Row) (row : Row) : Prop where
  none_iff : row.stage = none ↔ Stuck rows row.hash
  one_iff : row.stage = some 1 ↔ row.Free
  above : ∀ k, row.stage = some k → (∃ d, Needs rows row.hash d) →
    (∀ d, Needs rows row.hash d → ∃ m, StageOf rows d m) ∧
      ∃ m, k = m + 1 ∧ IsGreatest {m | ∃ d, Needs rows row.hash d ∧ StageOf rows d m} m

namespace Contents

variable {c : Contents}

theorem needs_restage : Needs c.restage.values h d ↔ Needs c.values h d := by
  constructor
  · rintro ⟨_, hrow, rfl, hv⟩
    obtain ⟨row, hmem, rfl⟩ := exists_of_mem_restage hrow
    exact ⟨row, hmem, rfl, hv⟩
  · rintro ⟨row, hrow, rfl, hv⟩
    exact ⟨_, mem_restage hrow, rfl, hv⟩

theorem stuck_restage : Stuck c.restage.values h ↔ Stuck c.values h := by
  have hneeds : Needs c.restage.values = Needs c.values := funext₂ fun _ _ => propext needs_restage
  have hrows : ∀ d, (∀ row ∈ c.restage.values, row.hash ≠ d) ↔ ∀ row ∈ c.values, row.hash ≠ d := by
    intro d
    rw [values_restage, List.forall_mem_map]
    rfl
  simp only [Stuck, hneeds, hrows]

theorem stageOf_restage : StageOf c.restage.values d m ↔ (stages c.values).get? d = some m := by
  constructor
  · rintro ⟨_, hrow, rfl, hm⟩
    obtain ⟨row, -, rfl⟩ := exists_of_mem_restage hrow
    exact hm
  · intro hm
    obtain ⟨row, hrow, rfl⟩ := exists_row_of_stage hm
    exact ⟨_, mem_restage hrow, rfl, hm⟩

theorem Keyed.atDepth_restage (hc : c.Keyed) (hrow : row ∈ c.restage.values) : row.AtDepth c.restage.values := by
  obtain ⟨row, hmem, rfl⟩ := exists_of_mem_restage hrow
  have hinj : ∀ r ∈ c.values, ∀ r' ∈ c.values, r.hash = r'.hash → r = r' := fun r hr r' hr' => hc.injective hr hr'
  refine ⟨?_, ?_, fun k hk hneed => ?_⟩
  · rw [stuck_restage]
    exact stages_eq_none_iff hinj
  · exact (stages_eq_one_iff hinj hmem).trans (free_iff hinj hmem).symm
  · simp only [needs_restage, stageOf_restage] at hneed ⊢
    refine ⟨fun d hd => (exists_stage_of_needs hinj hk hd).imp fun _ hm => hm.1, ?_⟩
    rcases stage_tight hinj hk with ⟨-, hfree⟩ | ⟨d, m, hd, hm, rfl⟩
    · obtain ⟨d, hd⟩ := hneed
      exact absurd hd (hfree d)
    · refine ⟨m, rfl, ⟨d, hd, hm⟩, ?_⟩
      rintro k ⟨d', hd', hk'⟩
      obtain ⟨k', hk'', hlt⟩ := exists_stage_of_needs hinj hk hd'
      cases hk'.symm.trans hk''
      exact Nat.le_of_lt_succ hlt

/-- A pass stages nothing if and only if every row needs something. -/
theorem Keyed.stageable_eq_zero_iff (hc : c.Keyed) : c.stageable = 0 ↔ ∀ row ∈ c.restage.values, ¬ row.Free := by
  have hinj : ∀ r ∈ c.values, ∀ r' ∈ c.values, r.hash = r'.hash → r = r' := fun r hr r' hr' => hc.injective hr hr'
  rw [stageable, List.countP_eq_zero]
  constructor
  · intro hnone row hrow hfree
    have hone := (hc.atDepth_restage hrow).one_iff.2 hfree
    exact hnone row hrow (Option.isSome_iff_exists.2 ⟨1, hone⟩)
  · intro hall row hrow hsome
    obtain ⟨k, hk⟩ := Option.isSome_iff_exists.1 hsome
    obtain ⟨r, -, rfl⟩ := exists_of_mem_restage hrow
    obtain ⟨first, hfirst, hfree⟩ := exists_of_stage hinj hk
    exact hall _ (mem_restage hfirst) ((free_iff hinj hfirst).2 hfree)

theorem stageable_eq_size_iff : c.stageable = c.size ↔ ∀ row ∈ c.restage.values, row.stage.isSome :=
  c.size_restage ▸ allStaged_iff.symm

end Contents

end Staging

end TxRecovery
