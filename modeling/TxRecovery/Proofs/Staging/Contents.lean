import TxRecovery.Proofs.Staging.Depth
import TxRecovery.Proofs.Staging.Row

/-!
# The rows of a staging area

`Contents` is what a staging area holds, read: rows by transaction hash. `Contents.restage` is what a
staging pass makes of it, which is to write back the rows that change (`foldl_updates`), and
`Contents.ordered` lists the staged rows in the order in which they are committed: a row comes before
every row of a greater stage (`mem_before_of_stage_lt`).
-/

namespace TxRecovery

namespace Staging

/-! ### Rows in commit order -/

abbrev stageCmp : Nat × Row → Nat × Row → Ordering :=
  compareLex (compareOn Prod.fst) (compareOn fun e => e.2.hash)

theorem stageOrder_trans (x y z : Nat × Row) (hxy : Area.stageOrder x y = true)
    (hyz : Area.stageOrder y z = true) : Area.stageOrder x z = true :=
  (inferInstance : Std.TransCmp stageCmp).isLE_trans hxy hyz

theorem stageOrder_total (x y : Nat × Row) : (Area.stageOrder x y || Area.stageOrder y x) = true := by
  have hswap : stageCmp x y = (stageCmp y x).swap := Std.OrientedCmp.eq_swap
  show ((stageCmp x y).isLE || (stageCmp y x).isLE) = true
  rw [hswap]
  cases stageCmp y x <;> rfl

theorem stageOrder_iff {x y : Nat × Row} :
    Area.stageOrder x y = true ↔ x.1 < y.1 ∨ x.1 = y.1 ∧ (compare x.2.hash y.2.hash).isLE := by
  unfold Area.stageOrder
  rcases Nat.lt_trichotomy x.1 y.1 with h | h | h
  · simp [Nat.compare_eq_lt.2 h, h]
  · simp [h]
  · simp [Nat.compare_eq_gt.2 h, Nat.not_lt_of_gt h, Nat.ne_of_gt h]

/-- Those of these rows that are staged, by stage and hash. -/
def inOrder (rows : List Row) : List Row :=
  ((rows.filterMap fun row => row.stage.map (·, row)).mergeSort Area.stageOrder).map Prod.snd

theorem inOrder_perm (rows : List Row) : (inOrder rows).Perm (rows.filter fun row => row.stage.isSome) := by
  have hfilter : (rows.filterMap fun row => row.stage.map (·, row)).map Prod.snd =
      rows.filter fun row => row.stage.isSome := by
    induction rows with
    | nil => rfl
    | cons r rows ih => cases hs : r.stage <;> simp [hs, ih]
  exact hfilter ▸ (List.mergeSort_perm _ _).map _

theorem inOrder_pairwise (rows : List Row) :
    (inOrder rows).Pairwise fun r r' => ∀ n m, r.stage = some n → r'.stage = some m →
      n < m ∨ n = m ∧ (compare r.hash r'.hash).isLE := by
  let staged := rows.filterMap fun row => row.stage.map (·, row)
  have hsorted : (staged.mergeSort Area.stageOrder).Pairwise fun x y => Area.stageOrder x y = true :=
    List.pairwise_mergeSort stageOrder_trans stageOrder_total _
  have hstage : ∀ e ∈ staged.mergeSort Area.stageOrder, e.2.stage = some e.1 := by
    intro e he
    obtain ⟨row, -, hrow⟩ := List.mem_filterMap.1 ((List.mergeSort_perm _ _).mem_iff.1 he)
    obtain ⟨n, hn, rfl⟩ := Option.map_eq_some_iff.1 hrow
    exact hn
  refine List.pairwise_map.2 (hsorted.imp_of_mem fun {x y} hx hy hxy n m hn hm => ?_)
  rw [hstage x hx] at hn
  rw [hstage y hy] at hm
  cases hn
  cases hm
  exact stageOrder_iff.1 hxy

abbrev Contents := SortedMap TxHash Row

namespace Contents

variable {c : Contents} {row row' : Row} {n m : Nat}

def Keyed (c : Contents) : Prop := ∀ h row, c.get? h = some row → row.hash = h

theorem Keyed.get? (hc : c.Keyed) (hr : row ∈ c.values) : c.get? row.hash = some row := by
  obtain ⟨h, hh⟩ := SortedMap.mem_values_iff.1 hr
  rwa [hc h row hh]

theorem Keyed.injective (hc : c.Keyed) (hr : row ∈ c.values) (hr' : row' ∈ c.values)
    (h : row.hash = row'.hash) : row = row' := by
  have h1 := hc.get? hr
  rw [h, hc.get? hr'] at h1
  exact (Option.some.inj h1).symm

theorem Keyed.pairwise_hash_ne (hc : c.Keyed) : c.values.Pairwise fun r r' => r.hash ≠ r'.hash := by
  refine List.pairwise_map.2 (c.ascending.imp_of_mem fun {e e'} he he' hlt heq => ?_)
  rw [hc _ _ (SortedMap.get?_eq_some_iff.2 he), hc _ _ (SortedMap.get?_eq_some_iff.2 he')] at heq
  rw [heq, Std.ReflOrd.compare_self] at hlt
  exact nomatch hlt

/-- Every row is kept under its own hash, and so is every payload of it. -/
structure Faithful (c : Contents) : Prop where
  keyed : c.Keyed
  row : ∀ row ∈ c.values, row.Faithful

theorem faithful_empty : Faithful .empty := ⟨nofun, nofun⟩

/-- The row of a payload's transaction, with the payload merged into it. -/
def merged (c : Contents) (raw : Bytes) (p : Payload) : Row :=
  ((c.get? p.hash).getD (.empty p.hash)).merge (.ofPayload p) (.ofPayload raw p)

theorem Faithful.merged {raw : Bytes} {p : Payload} (hc : c.Faithful) (hp : Payload.decode raw = .ok p) :
    (c.merged raw p).hash = p.hash ∧ (c.merged raw p).Faithful := by
  unfold Contents.merged
  cases hr : c.get? p.hash with
  | none =>
    have hmerge : ((Row.empty p.hash).merge (.ofPayload p) (.ofPayload raw p)).Faithful :=
      Row.faithful_merge hp rfl nofun
    exact ⟨rfl, hmerge⟩
  | some row =>
    have hh : row.hash = p.hash := hc.keyed _ _ hr
    exact ⟨hh, Row.faithful_merge hp hh.symm (hc.row row (SortedMap.mem_values_iff.2 ⟨_, hr⟩)).view⟩

theorem Faithful.insert_merged {raw : Bytes} {p : Payload} (hc : c.Faithful)
    (hp : Payload.decode raw = .ok p) : Faithful (c.insert p.hash (c.merged raw p)) := by
  have hcases : ∀ h row, (c.insert p.hash (c.merged raw p)).get? h = some row →
      (h = p.hash ∧ row = c.merged raw p) ∨ c.get? h = some row := by
    intro h row hr
    rw [SortedMap.get?_insert] at hr
    split at hr
    · exact .inl ⟨‹_›, (Option.some.inj hr).symm⟩
    · exact .inr hr
  refine ⟨fun h row hr => ?_, fun row hrow => ?_⟩
  · rcases hcases h row hr with ⟨rfl, rfl⟩ | hr
    · exact (hc.merged hp).1
    · exact hc.keyed h row hr
  · obtain ⟨h, hr⟩ := SortedMap.mem_values_iff.1 hrow
    rcases hcases h row hr with ⟨-, rfl⟩ | hr
    · exact (hc.merged hp).2
    · exact hc.row row (SortedMap.mem_values_iff.2 ⟨h, hr⟩)

/-- The rows after a push: its payloads are merged one after the other, up to the first that does not read. -/
def push (c : Contents) : List Bytes → Contents
  | [] => c
  | raw :: raws =>
    match Payload.decode raw with
    | .ok p => push (c.insert p.hash (c.merged raw p)) raws
    | .error _ => c

theorem push_cons_ok {raw : Bytes} {p : Payload} (hp : Payload.decode raw = .ok p) (raws : List Bytes) :
    c.push (raw :: raws) = push (c.insert p.hash (c.merged raw p)) raws := by
  rw [push, hp]

theorem push_cons_error {raw : Bytes} {e : PayloadError} (hp : Payload.decode raw = .error e)
    (raws : List Bytes) : c.push (raw :: raws) = c := by
  rw [push, hp]

/-! ### Staging passes -/

def restage (c : Contents) : Contents := c.mapValues fun _ row => row.restage (stages c.values)

theorem get?_restage (c : Contents) (h : TxHash) :
    c.restage.get? h = (c.get? h).map (Row.restage (stages c.values)) :=
  SortedMap.get?_mapValues _ c h

theorem values_restage (c : Contents) : c.restage.values = c.values.map (Row.restage (stages c.values)) := by
  simp only [restage, SortedMap.values, SortedMap.mapValues, List.map_map]
  rfl

theorem mem_restage (hr : row ∈ c.values) : row.restage (stages c.values) ∈ c.restage.values := by
  rw [values_restage]
  exact List.mem_map_of_mem hr

theorem exists_of_mem_restage (hr : row ∈ c.restage.values) :
    ∃ r ∈ c.values, r.restage (stages c.values) = row := by
  rw [values_restage] at hr
  exact List.mem_map.1 hr

theorem size_restage (c : Contents) : c.restage.size = c.size := List.length_map _

theorem Keyed.restage (hc : c.Keyed) : c.restage.Keyed := by
  intro h row hr
  rw [get?_restage] at hr
  obtain ⟨r, hget, rfl⟩ := Option.map_eq_some_iff.1 hr
  exact hc h r hget

theorem Faithful.restage (hc : c.Faithful) : c.restage.Faithful := by
  refine ⟨hc.keyed.restage, fun row hr => ?_⟩
  rw [values_restage] at hr
  obtain ⟨r, hmem, rfl⟩ := List.mem_map.1 hr
  exact ⟨(hc.row r hmem).versions_ne, (hc.row r hmem).view⟩

def stageable (c : Contents) : Nat := c.restage.values.countP fun row => row.stage.isSome

/-- The rows that a staging pass changes, as it leaves them. -/
def updates (c : Contents) : List (TxHash × Row) :=
  c.entries.filterMap fun e => (Area.restaged? (stages c.values) e.2).map (e.1, ·)

theorem mem_updates {u : TxHash × Row} : u ∈ c.updates ↔
    ∃ row, c.get? u.1 = some row ∧ u.2 = row.restage (stages c.values) ∧
      row.restage (stages c.values) ≠ row := by
  unfold updates
  simp only [List.mem_filterMap, Option.map_eq_some_iff, Row.restaged?_eq, Option.ite_none_left_eq_some,
    Option.some.injEq, SortedMap.get?_eq_some_iff]
  constructor
  · rintro ⟨e, he, _, ⟨hne, rfl⟩, rfl⟩
    exact ⟨e.2, he, rfl, hne⟩
  · rintro ⟨row, hr, hu, hne⟩
    exact ⟨(u.1, row), hr, _, ⟨hne, rfl⟩, Prod.ext rfl hu.symm⟩

theorem foldl_updates (c : Contents) :
    c.updates.foldl (fun c u => c.insert u.1 u.2) c = c.restage := by
  refine SortedMap.ext_get? fun h => ?_
  have hF : ∀ u ∈ c.updates, u.2 = ((c.get? u.1).getD default).restage (stages c.values) := by
    intro u hu
    obtain ⟨row, hr, hu, -⟩ := mem_updates.1 hu
    rw [hu, hr]
    rfl
  rw [SortedMap.get?_foldl_insert (F := fun h => ((c.get? h).getD default).restage (stages c.values)) hF,
    get?_restage]
  have hmem : h ∈ c.updates.map Prod.fst ↔
      ∃ row, c.get? h = some row ∧ row.restage (stages c.values) ≠ row := by
    rw [List.mem_map]
    constructor
    · rintro ⟨u, hu, rfl⟩
      obtain ⟨row, hr, -, hne⟩ := mem_updates.1 hu
      exact ⟨row, hr, hne⟩
    · rintro ⟨row, hr, hne⟩
      exact ⟨(h, _), mem_updates.2 ⟨row, hr, rfl, hne⟩, rfl⟩
  cases hc : c.get? h with
  | none =>
    rw [if_neg fun hm => ?_]
    · rfl
    · obtain ⟨row, hr, -⟩ := hmem.1 hm
      rw [hc] at hr
      exact nomatch hr
  | some row =>
    by_cases hne : row.restage (stages c.values) = row
    · rw [if_neg fun hm => ?_, Option.map_some, hne]
      obtain ⟨row', hr, hne'⟩ := hmem.1 hm
      rw [hc] at hr
      cases hr
      exact hne' hne
    · rw [if_pos (hmem.2 ⟨row, hc, hne⟩)]
      rfl

/-! ### Commit order -/

def staged (c : Contents) : List (Nat × Row) := c.values.filterMap fun row => row.stage.map (·, row)

def ordered (c : Contents) : List Row := (c.staged.mergeSort Area.stageOrder).map Prod.snd

theorem ordered_perm (c : Contents) : c.ordered.Perm (c.values.filter fun row => row.stage.isSome) :=
  inOrder_perm c.values

theorem mem_ordered : row ∈ c.ordered ↔ row ∈ c.values ∧ ∃ n, row.stage = some n := by
  rw [c.ordered_perm.mem_iff, List.mem_filter, Option.isSome_iff_exists]

/-- Stages do not fall in commit order. -/
theorem ordered_pairwise (c : Contents) :
    c.ordered.Pairwise fun r r' => ∀ n m, r.stage = some n → r'.stage = some m → n ≤ m := by
  refine (inOrder_pairwise c.values).imp fun {r r'} h n m hn hm => ?_
  rcases h n m hn hm with hlt | ⟨heq, -⟩
  · exact Nat.le_of_lt hlt
  · exact Nat.le_of_eq heq

theorem mem_before_of_stage_lt {xs ys : List Row} (ho : c.ordered = xs ++ row :: ys)
    (hr' : row' ∈ c.values) (hn : row.stage = some n) (hm : row'.stage = some m) (hlt : m < n) :
    row' ∈ xs := by
  have hle := c.ordered_pairwise
  have hmem : row' ∈ c.ordered := mem_ordered.2 ⟨hr', m, hm⟩
  rw [ho] at hmem hle
  rcases List.mem_append.1 hmem with h | h
  · exact h
  · rcases List.mem_cons.1 h with rfl | h
    · rw [hn] at hm
      cases hm
      exact absurd hlt (Nat.lt_irrefl _)
    · have := (List.pairwise_cons.1 (List.pairwise_append.1 hle).2.1).1 row' h n m hn hm
      omega

/-! ### The payloads to commit -/

/-- The payloads of the staged rows, in commit order. -/
def queue (c : Contents) : List Bytes := c.ordered.flatMap Row.raws

theorem length_ordered_le (c : Contents) : c.ordered.length ≤ c.size := by
  rw [c.ordered_perm.length_eq]
  exact Nat.le_trans (List.length_filter_le _ _) (Nat.le_of_eq (List.length_map _))

theorem mem_queue {raw : Bytes} :
    raw ∈ c.queue ↔ ∃ row ∈ c.values, (∃ n, row.stage = some n) ∧ raw ∈ row.raws := by
  simp only [queue, List.mem_flatMap, mem_ordered, and_assoc]

def AllStaged (c : Contents) : Prop := ∀ row ∈ c.values, row.stage.isSome

theorem allStaged_iff : c.AllStaged ↔ (c.values.countP fun row => row.stage.isSome) = c.size := by
  have hlen : c.values.length = c.size := List.length_map _
  rw [← hlen]
  exact List.countP_eq_length.symm

theorem Faithful.queue_pos (hc : c.Faithful) (hall : c.AllStaged) (hne : c.size ≠ 0) : 0 < c.queue.length := by
  have hvalues : 0 < c.values.length := by
    rw [SortedMap.values, List.length_map]
    exact Nat.pos_of_ne_zero hne
  obtain ⟨row, hrow⟩ := List.exists_mem_of_length_pos hvalues
  obtain ⟨v, hv⟩ := (hc.row row hrow).exists_version
  have hraw : v.raw ∈ c.queue :=
    mem_queue.2 ⟨row, hrow, Option.isSome_iff_exists.1 (hall row hrow), List.mem_map_of_mem hv⟩
  exact List.length_pos_of_mem hraw

end Contents

end Staging

end TxRecovery
