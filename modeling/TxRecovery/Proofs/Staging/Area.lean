import TxRecovery.Proofs.Staging.Contents

/-!
# What a staging area holds

`Area.Holds a c`: the area `a` keeps the rows `c`, each in its binary form, from which it reads back.
Every operation on the area is then one on the rows: looking up (`Holds.find?`), storing (`Holds.put`),
a staging pass (`Holds.assignStages`), reading in commit order (`Holds.ordered`) and counting. Emptying
an area needs no reading (`clear_eq`). Whatever a tree holds, its rows are told by its entries
(`rows_eq_ok_iff`), and one entry is enough to damage them all (`rows_eq_error_iff`).
-/

namespace TxRecovery

namespace Staging

theorem flatten_chunksOf {α : Type} (n : Nat) (xs : List α) : (chunksOf n xs).flatten = xs := by
  induction xs using chunksOf.induct n with
  | case1 => rw [chunksOf, List.flatten_nil]
  | case2 x xs ih => rw [chunksOf, List.flatten_cons, ih, List.cons_append, List.take_append_drop]

namespace Area

variable {a : Area} {c : Contents} {h : TxHash} {row : Row} {k : ViewKey} {v : Version}

/-- A row as it is kept. -/
def keep (e : TxHash × Row) : Bytes × Bytes := (e.1.bytes, Row.format.write e.2)

structure Holds (a : Area) (c : Contents) : Prop where
  entries : a.tree.entries = c.entries.map keep
  keyed : c.Keyed
  fits : ∀ h row, c.get? h = some row → row.Fits

theorem lookup_keep (h : TxHash) (es : List (TxHash × Row)) :
    SortedMap.lookup h.bytes (es.map keep) = (SortedMap.lookup h es).map Row.format.write := by
  induction es with
  | nil => rfl
  | cons e es ih =>
    show (if compare h.bytes e.1.bytes = .eq then _ else SortedMap.lookup h.bytes (es.map keep)) =
      (if compare h.bytes e.1.bytes = .eq then _ else _ : Option Row).map _
    rw [ih]
    split <;> rfl

theorem insertEntry_keep (h : TxHash) (row : Row) (es : List (TxHash × Row)) :
    SortedMap.insertEntry h.bytes (Row.format.write row) (es.map keep) =
      (SortedMap.insertEntry h row es).map keep := by
  induction es with
  | nil => rfl
  | cons e es ih =>
    have hcmp : compare h.bytes (keep e).1 = compare h e.1 := rfl
    simp only [List.map_cons, SortedMap.insertEntry, hcmp, ih]
    cases compare h e.1 <;> rfl

section

variable {rows : List (Bytes × Row)} {e : DbError}

/-- The rows are what the entries of the tree decode to, each under its key. -/
theorem rows_eq_ok_iff : a.rows = .ok rows ↔
    List.Forall₂ (fun entry e => e.1 = entry.1 ∧ Row.format.decode entry.2 = .ok e.2) a.tree.entries rows := by
  have hread : ∀ (entry : Bytes × Bytes) (e : Bytes × Row),
      (∃ row, Row.format.decode entry.2 = .ok row ∧ (entry.1, row) = e) ↔
        e.1 = entry.1 ∧ Row.format.decode entry.2 = .ok e.2 := by
    rintro entry ⟨key, row⟩
    constructor
    · rintro ⟨row, hrow, h⟩
      cases h
      exact ⟨rfl, hrow⟩
    · rintro ⟨rfl, hrow⟩
      exact ⟨row, hrow, rfl⟩
  rw [Area.rows, mapM_eq_ok_iff]
  simp only [map_eq_ok, decodeStored_eq_ok, hread]

/-- The first entry that is not a row spoils them all. -/
theorem rows_eq_error_iff : a.rows = .error e ↔ ∃ before damaged after,
    a.tree.entries = before ++ damaged :: after ∧ (∀ entry ∈ before, ∃ row, Row.format.decode entry.2 = .ok row) ∧
      ∃ d, Row.format.decode damaged.2 = .error d ∧ e = .serialization d.message := by
  have hread : ∀ entry : Bytes × Bytes,
      (∃ e : Bytes × Row, ∃ row, Row.format.decode entry.2 = .ok row ∧ (entry.1, row) = e) ↔
        ∃ row, Row.format.decode entry.2 = .ok row :=
    fun entry => ⟨fun ⟨_, row, hrow, _⟩ => ⟨row, hrow⟩, fun ⟨row, hrow⟩ => ⟨_, row, hrow, rfl⟩⟩
  rw [Area.rows, mapM_eq_error_iff]
  simp only [map_eq_ok, map_eq_error, decodeStored_eq_ok, decodeStored_eq_error, hread]

theorem length_rows (h : a.rows = .ok rows) : rows.length = a.size := length_of_mapM h

theorem ordered_of_rows (h : a.rows = .ok rows) : a.ordered = .ok (inOrder (rows.map Prod.snd)) := by
  simp only [Area.ordered, h, bind, Except.bind, inOrder, List.filterMap_map]
  rfl

theorem page_of_rows (h : a.rows = .ok rows) (offset max : Nat) :
    a.page offset max = .ok (((inOrder (rows.map Prod.snd)).drop offset).take max) := by
  simp only [Area.page, ordered_of_rows h, bind, Except.bind]

/-- One damaged row is enough to spoil every page. -/
theorem page_of_rows_error (h : a.rows = .error e) (offset max : Nat) : a.page offset max = .error e := by
  simp only [Area.page, Area.ordered, h, bind, Except.bind]

theorem size_pos_of_rows_error (h : a.rows = .error e) : 0 < a.size := by
  rw [Nat.pos_iff_ne_zero]
  intro hsize
  have hnil : a.tree.entries = [] := List.eq_nil_of_length_eq_zero hsize
  rw [Area.rows, hnil] at h
  exact nomatch h

end

/-- An upsert adds a row or writes one anew, and removes none. -/
theorem size_of_upsert {a' : Area} (hup : a.upsert h k v = .ok (row, a')) :
    a.size ≤ a'.size ∧ a'.size ≤ a.size + 1 := by
  simp only [Area.upsert, bind, Except.bind] at hup
  split at hup
  · exact nomatch hup
  · cases hup
    exact ⟨SortedMap.length_le_length_insertEntry _ _ _, SortedMap.length_insertEntry_le _ _ _⟩

theorem holds_empty : Area.empty.Holds .empty := ⟨rfl, nofun, nofun⟩

namespace Holds

/-- An area is told by its rows. -/
theorem unique {a' : Area} (ha : a.Holds c) (ha' : a'.Holds c) : a = a' := by
  obtain ⟨tree⟩ := a
  obtain ⟨tree'⟩ := a'
  have htree : tree = tree' := SortedMap.ext (ha.entries.trans ha'.entries.symm)
  rw [htree]

theorem size (ha : a.Holds c) : a.size = c.size := by
  rw [Area.size, SortedMap.size, ha.entries, List.length_map]
  rfl

theorem decodeStored (ha : a.Holds c) (hr : c.get? h = some row) :
    TxRecovery.decodeStored Row.format (Row.format.write row) = .ok row :=
  decodeStored_eq_ok.2 (Row.format_lawful.decode_write (ha.fits h row hr))

theorem get? (ha : a.Holds c) (h : TxHash) : a.tree.get? h.bytes = (c.get? h).map Row.format.write := by
  rw [SortedMap.get?, ha.entries, lookup_keep]
  rfl

theorem find? (ha : a.Holds c) (h : TxHash) : a.find? h = .ok (c.get? h) := by
  unfold Area.find?
  rw [ha.get?]
  cases hr : c.get? h with
  | none => rfl
  | some row =>
    simp only [Option.map_some, ha.decodeStored hr]
    rfl

theorem put (ha : a.Holds c) (hh : row.hash = h) (hr : row.Fits) :
    (a.put h.bytes row).Holds (c.insert h row) := by
  refine ⟨?_, fun g r hg => ?_, fun g r hg => ?_⟩
  · show SortedMap.insertEntry _ _ a.tree.entries = _
    rw [ha.entries, insertEntry_keep]
    rfl
  all_goals
    rw [SortedMap.get?_insert] at hg
    split at hg
  · cases hg
    rw [hh, ‹g = h›]
  · exact ha.keyed g r hg
  · cases hg
    exact hr
  · exact ha.fits g r hg

theorem upsert (ha : a.Holds c) (h : TxHash) (k : ViewKey) (v : Version) :
    a.upsert h k v = .ok (((c.get? h).getD (.empty h)).merge k v,
      a.put h.bytes (((c.get? h).getD (.empty h)).merge k v)) := by
  simp only [Area.upsert, ha.find? h, bind, Except.bind]

theorem rows (ha : a.Holds c) : a.rows = .ok (c.entries.map fun e => (e.1.bytes, e.2)) := by
  unfold Area.rows
  rw [ha.entries, List.mapM_map]
  refine mapM_eq_ok (g := fun e : TxHash × Row => (e.1.bytes, e.2)) fun e he => ?_
  have hdecode := ha.decodeStored (SortedMap.get?_eq_some_iff.2 he)
  simp only [Function.comp, keep, hdecode, Except.map]

theorem map_snd_rows (ha : a.Holds c) {rows : List (Bytes × Row)} (h : a.rows = .ok rows) :
    rows.map Prod.snd = c.values := by
  cases ha.rows.symm.trans h
  exact List.map_map

theorem countStaged (ha : a.Holds c) :
    a.countStaged = .ok (c.values.countP fun row => row.stage.isSome) := by
  simp only [Area.countStaged, ha.rows, bind, Except.bind, SortedMap.values, List.countP_map]
  rfl

theorem ordered (ha : a.Holds c) : a.ordered = .ok c.ordered := by
  rw [ordered_of_rows ha.rows, List.map_map]
  rfl

theorem page (ha : a.Holds c) (offset max : Nat) :
    a.page offset max = .ok ((c.ordered.drop offset).take max) := by
  simp only [Area.page, ha.ordered, bind, Except.bind]

theorem foldl_put (ha : a.Holds c) (us : List (TxHash × Row))
    (hu : ∀ u ∈ us, u.2.hash = u.1 ∧ u.2.Fits) :
    ((us.map fun u => (u.1.bytes, u.2)).foldl (fun a u => a.put u.1 u.2) a).Holds
      (us.foldl (fun c u => c.insert u.1 u.2) c) := by
  induction us generalizing a c with
  | nil => exact ha
  | cons u us ih =>
    obtain ⟨⟨hh, hf⟩, hus⟩ := List.forall_mem_cons.1 hu
    exact ih (ha.put hh hf) hus

/-- A staging pass restages every row, whatever the size of its chunks. -/
theorem assignStages (ha : a.Holds c) (hsize : c.size < UInt64.size) (batch : Nat) :
    ∃ a', a.assignStages batch = .ok a' ∧ a'.Holds c.restage := by
  have hupdates : ((c.entries.map fun e => (e.1.bytes, e.2)).filterMap fun e =>
      (restaged? (stages c.values) e.2).map (e.1, ·)) = c.updates.map fun u => (u.1.bytes, u.2) := by
    simp only [Contents.updates, List.filterMap_map, List.map_filterMap, Function.comp_def, Option.map_map]
  refine ⟨_, ?_, c.foldl_updates ▸ ha.foldl_put c.updates fun u hu => ?_⟩
  · simp only [Area.assignStages, ha.rows, bind, Except.bind, List.map_map, ← List.foldl_flatten,
      flatten_chunksOf]
    simp only [← hupdates, SortedMap.values]
    rfl
  · obtain ⟨row, hr, hu, -⟩ := Contents.mem_updates.1 hu
    rw [hu]
    refine ⟨ha.keyed u.1 row hr, (ha.fits u.1 row hr).restage fun n hn => ?_⟩
    have hlen : c.values.length = c.size := List.length_map _
    have := stage_bounds hn
    omega

end Holds

/-! ### Emptying the area -/

section

variable {n : Nat} {tree : Tree} {k : Bytes} {ks : List Bytes}

theorem eq_empty_of_take (h : tree.keys.take (n + 1) = []) : tree = .empty := by
  have hnil : tree.entries = [] := by
    simpa [SortedMap.keys] using h
  exact SortedMap.ext hnil

/-- A round takes `n + 1` rows from the front, or as many as there are. -/
theorem length_of_take (h : tree.keys.take (n + 1) = k :: ks) : ks.length + 1 = min (n + 1) tree.size := by
  rw [← List.length_cons, ← h, List.length_take, SortedMap.keys, List.length_map]
  rfl

theorem size_of_take (h : tree.keys.take (n + 1) = k :: ks) :
    ((k :: ks).foldl SortedMap.erase tree).size = tree.size - (n + 1) := by
  rw [← h, SortedMap.size, SortedMap.entries_foldl_erase, List.length_drop]
  rfl

theorem clearTree_eq (n : Nat) (tree : Tree) (removed : Nat) :
    clearTree n tree removed = (removed + tree.size, .empty) := by
  induction tree, removed using clearTree.induct n with
  | case1 tree removed h =>
    rw [clearTree, h, eq_empty_of_take h]
    rfl
  | case2 tree removed k ks h ih =>
    have hcount : removed + (ks.length + 1) + (tree.size - (n + 1)) = removed + tree.size := by
      have := length_of_take h
      omega
    rw [clearTree, h]
    simp only [ih, size_of_take h, hcount]

end

/-- A cleanup removes every row, whatever the size of its batches. -/
theorem clear_eq (a : Area) (batch : Nat) : a.clear batch = (a.size, .empty) := by
  simp only [clear, clearTree_eq, Nat.zero_add]
  rfl

end Area

end Staging

end TxRecovery
