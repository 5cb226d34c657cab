import Mathlib.Order.WellFoundedSet
import TxRecovery.Proofs.Collections
import TxRecovery.Staging.Depth

/-!
# Stages follow dependencies

`Rounds rows round s`: what the rounds before `round` leave. Every stage in `s` belongs to a row whose
dependencies have smaller stages, and no more rounds have passed than rows were staged. Each round keeps
it (`Rounds.step`), so it holds of the stages that a pass ends with (`rounds_stages`); there no row is
left whose dependencies are all staged (`mem_stages_of_dependencies`), so that a row stays without a
stage only because of what it depends on: if every dependency has a row and none comes back to itself,
all are staged (`mem_stages_of_acyclic`).
-/

namespace TxRecovery

namespace Staging

variable {rows : List Row} {row : Row} {round n : Nat} {s : Stages} {h : TxHash}

theorem get?_stageAll_of_some {rs : List Row} (hs : s.get? h = some round) :
    (stageAll round rs s).get? h = some round := by
  induction rs generalizing s with
  | nil => exact hs
  | cons r rs ih =>
    show (stageAll round rs (s.insert r.hash round)).get? h = some round
    refine ih ?_
    rw [SortedMap.get?_insert]
    split
    · rfl
    · exact hs

theorem get?_stageAll_of_mem {rs : List Row} (hr : row ∈ rs) :
    (stageAll round rs s).get? row.hash = some round := by
  induction rs generalizing s with
  | nil => exact absurd hr List.not_mem_nil
  | cons r rs ih =>
    show (stageAll round rs (s.insert r.hash round)).get? row.hash = some round
    rcases List.mem_cons.1 hr with rfl | hr
    · exact get?_stageAll_of_some (SortedMap.get?_insert_self _ _ _)
    · exact ih hr

theorem get?_stageAll_of_not_mem {rs : List Row} (hr : ∀ r ∈ rs, r.hash ≠ h) :
    (stageAll round rs s).get? h = s.get? h := by
  induction rs generalizing s with
  | nil => rfl
  | cons r rs ih =>
    obtain ⟨hne, hrs⟩ := List.forall_mem_cons.1 hr
    show (stageAll round rs (s.insert r.hash round)).get? h = s.get? h
    rw [ih hrs, SortedMap.get?_insert_of_ne _ hne.symm]

theorem mem_ready : row ∈ ready rows s ↔
    row ∈ rows ∧ s.get? row.hash = none ∧ ∀ d ∈ row.dependencies, ∃ m, s.get? d = some m := by
  simp only [ready, List.mem_filter, Bool.and_eq_true, Bool.not_eq_true', List.all_eq_true,
    SortedMap.not_contains_iff, SortedMap.contains_iff]
  exact Iff.rfl

/-- A round leaves the stages of the rounds before it as they are. -/
theorem get?_stageAll_ready (hs : s.get? h = some n) :
    (stageAll round (ready rows s) s).get? h = some n := by
  rw [get?_stageAll_of_not_mem, hs]
  rintro r hr rfl
  rw [(mem_ready.1 hr).2.1] at hs
  exact nomatch hs

theorem get?_stageAll_ready_cases (hn : (stageAll round (ready rows s) s).get? h = some n) :
    s.get? h = some n ∨ n = round ∧ ∃ row ∈ ready rows s, row.hash = h := by
  by_cases hmem : ∃ row ∈ ready rows s, row.hash = h
  · obtain ⟨row, hrow, rfl⟩ := hmem
    rw [get?_stageAll_of_mem hrow] at hn
    exact .inr ⟨(Option.some.inj hn).symm, row, hrow, rfl⟩
  · rw [get?_stageAll_of_not_mem fun r hr he => hmem ⟨r, hr, he⟩] at hn
    exact .inl hn

/-- What each round keeps holds in the end, when no row is ready any more. -/
theorem stagesFrom_induct {P : Nat → Stages → Prop}
    (hstep : ∀ round s, P round s → ready rows s ≠ [] → P (round + 1) (stageAll round (ready rows s) s))
    (hs : P round s) :
    ∃ round', P round' (stagesFrom rows round s) ∧ ready rows (stagesFrom rows round s) = [] := by
  induction round, s using stagesFrom.induct rows with
  | case1 round s he =>
    rw [stagesFrom, he]
    exact ⟨round, hs, he⟩
  | case2 round s r rs he ih =>
    have hnext := hstep round s hs (by rw [he]; exact List.cons_ne_nil r rs)
    rw [he] at hnext
    rw [stagesFrom, he]
    exact ih hnext

structure Rounds (rows : List Row) (round : Nat) (s : Stages) : Prop where
  pos : 1 ≤ round
  lt : ∀ h n, s.get? h = some n → 1 ≤ n ∧ n < round
  row : ∀ h n, s.get? h = some n → ∃ row ∈ rows, row.hash = h ∧
    ∀ d ∈ row.dependencies, ∃ m, s.get? d = some m ∧ m < n
  bound : round + (pending rows s).length ≤ rows.length + 1

theorem rounds_empty (rows : List Row) : Rounds rows 1 .empty := by
  refine ⟨Nat.le_refl _, fun h n hs => ?_, fun h n hs => ?_, ?_⟩
  · rw [SortedMap.get?_empty] at hs
    exact nomatch hs
  · rw [SortedMap.get?_empty] at hs
    exact nomatch hs
  · have := List.length_filter_le (fun row => !(SortedMap.empty : Stages).contains row.hash) rows
    unfold pending
    omega

theorem Rounds.step (hs : Rounds rows round s) (hr : ready rows s ≠ []) :
    Rounds rows (round + 1) (stageAll round (ready rows s) s) := by
  refine ⟨Nat.le_add_left _ _, fun h n hn => ?_, fun h n hn => ?_, ?_⟩
  · rcases get?_stageAll_ready_cases hn with hn | ⟨rfl, -⟩
    · have := hs.lt h n hn
      omega
    · have := hs.pos
      omega
  · rcases get?_stageAll_ready_cases hn with hn | ⟨rfl, row, hrow, rfl⟩
    · obtain ⟨row, hrow, hh, hd⟩ := hs.row h n hn
      refine ⟨row, hrow, hh, fun d hdep => ?_⟩
      obtain ⟨m, hm, hlt⟩ := hd d hdep
      exact ⟨m, get?_stageAll_ready hm, hlt⟩
    · obtain ⟨hmem, -, hd⟩ := mem_ready.1 hrow
      refine ⟨row, hmem, rfl, fun d hdep => ?_⟩
      obtain ⟨m, hm⟩ := hd d hdep
      exact ⟨m, get?_stageAll_ready hm, (hs.lt d m hm).2⟩
  · obtain ⟨r, rs, he⟩ := List.exists_cons_of_ne_nil hr
    have hlt : (pending rows (stageAll round (r :: rs) s)).length < (pending rows s).length :=
      length_pending_stageAll_lt he
    have := hs.bound
    rw [he]
    omega

theorem rounds_stages (rows : List Row) :
    ∃ round, Rounds rows round (stages rows) ∧ ready rows (stages rows) = [] :=
  stagesFrom_induct (fun _ _ hs hr => hs.step hr) (rounds_empty rows)

theorem stage_bounds (hn : (stages rows).get? h = some n) : 1 ≤ n ∧ n ≤ rows.length := by
  obtain ⟨round, hr, -⟩ := rounds_stages rows
  have := hr.lt h n hn
  have := hr.bound
  omega

theorem exists_stage_lt (hinj : ∀ r ∈ rows, ∀ r' ∈ rows, r.hash = r'.hash → r = r') (hrow : row ∈ rows)
    (hn : (stages rows).get? row.hash = some n) {d : TxHash} (hd : d ∈ row.dependencies) :
    ∃ m, (stages rows).get? d = some m ∧ m < n := by
  obtain ⟨round, hr, -⟩ := rounds_stages rows
  obtain ⟨row', hrow', hh, hdep⟩ := hr.row _ n hn
  exact hdep d (hinj row' hrow' row hrow hh ▸ hd)

theorem exists_row_of_stage (hn : (stages rows).get? h = some n) : ∃ row ∈ rows, row.hash = h := by
  obtain ⟨round, hr, -⟩ := rounds_stages rows
  obtain ⟨row, hrow, hh, -⟩ := hr.row h n hn
  exact ⟨row, hrow, hh⟩

theorem mem_stages_of_dependencies (hrow : row ∈ rows)
    (hd : ∀ d ∈ row.dependencies, ∃ m, (stages rows).get? d = some m) :
    ∃ n, (stages rows).get? row.hash = some n := by
  obtain ⟨round, -, he⟩ := rounds_stages rows
  cases hs : (stages rows).get? row.hash with
  | some n => exact ⟨n, rfl⟩
  | none =>
    have hmem : row ∈ ready rows (stages rows) := mem_ready.2 ⟨hrow, hs, hd⟩
    rw [he] at hmem
    exact absurd hmem List.not_mem_nil

def DependsOn (rows : List Row) (d h : TxHash) : Prop :=
  ∃ row ∈ rows, row.hash = h ∧ d ∈ row.dependencies

theorem mem_stages_of_wellFounded (hclosed : ∀ row ∈ rows, ∀ d ∈ row.dependencies, ∃ r ∈ rows, r.hash = d)
    (hwf : WellFounded (DependsOn rows)) (hrow : row ∈ rows) :
    ∃ n, (stages rows).get? row.hash = some n := by
  generalize hh : row.hash = h
  induction h using hwf.induction generalizing row with
  | _ h ih =>
    subst hh
    refine mem_stages_of_dependencies hrow fun d hd => ?_
    obtain ⟨r, hr, rfl⟩ := hclosed row hrow d hd
    exact ih r.hash ⟨row, hrow, rfl, hd⟩ hr rfl

/-- Among finitely many, without a cycle there is no infinite descent. -/
theorem wellFounded_of_acyclic {α : Type} {R : α → α → Prop} (as : List α) (hR : ∀ a b, R a b → a ∈ as ∧ b ∈ as)
    (hacyclic : ∀ a, ¬ Relation.TransGen R a a) : WellFounded R := by
  have htrans : IsTrans α (Relation.TransGen R) := ⟨fun _ _ _ => Relation.TransGen.trans⟩
  have hirrefl : Std.Irrefl (Relation.TransGen R) := ⟨hacyclic⟩
  have horder : IsStrictOrder α (Relation.TransGen R) := {}
  have hon : {a | a ∈ as}.WellFoundedOn (Relation.TransGen R) := as.finite_toSet.wellFoundedOn
  exact Subrelation.wf (fun {a b} hab => ⟨.single hab, hR a b hab⟩) (Set.wellFoundedOn_iff.1 hon)

theorem wellFounded_dependsOn (hclosed : ∀ row ∈ rows, ∀ d ∈ row.dependencies, ∃ r ∈ rows, r.hash = d)
    (hacyclic : ∀ h, ¬ Relation.TransGen (DependsOn rows) h h) : WellFounded (DependsOn rows) := by
  refine wellFounded_of_acyclic (rows.map Row.hash) ?_ hacyclic
  rintro d _ ⟨row, hrow, rfl, hdep⟩
  obtain ⟨r, hr, rfl⟩ := hclosed row hrow d hdep
  exact ⟨List.mem_map_of_mem hr, List.mem_map_of_mem hrow⟩

theorem mem_stages_of_acyclic (hclosed : ∀ row ∈ rows, ∀ d ∈ row.dependencies, ∃ r ∈ rows, r.hash = d)
    (hacyclic : ∀ h, ¬ Relation.TransGen (DependsOn rows) h h) (hrow : row ∈ rows) :
    ∃ n, (stages rows).get? row.hash = some n :=
  mem_stages_of_wellFounded hclosed (wellFounded_dependsOn hclosed hacyclic) hrow

end Staging

end TxRecovery
