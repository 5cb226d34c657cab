/-!
# Maps and sets kept in key order

`SortedMap κ ν` is a list of entries with strictly ascending keys. The order is part of the type, so
a map has one form: two maps that look up alike are equal (`SortedMap.ext_get?`), and the entries
are read in key order. `insert` replaces the value of a key that is there. `SortedSet κ` is the same
for keys alone.

The lookup equations `get?_insert`, `get?_erase_self`, `get?_erase_of_ne` and `mem_insert` hold for every
map; no proof has to look at the entries.
-/

namespace TxRecovery

universe u v w

open Std (OrientedOrd TransOrd LawfulEqOrd)

/-- Keys strictly ascend. -/
def Ascending {α : Type u} {κ : Type v} [Ord κ] (key : α → κ) (xs : List α) : Prop :=
  xs.Pairwise fun a b => compare (key a) (key b) = .lt

structure SortedMap (κ : Type u) (ν : Type v) [Ord κ] where
  entries : List (κ × ν)
  ascending : Ascending Prod.fst entries

namespace SortedMap

variable {κ : Type u} {ν : Type v} [Ord κ]

theorem ext {a b : SortedMap κ ν} (h : a.entries = b.entries) : a = b := by
  cases a; cases b; cases h; rfl

instance [DecidableEq κ] [DecidableEq ν] : DecidableEq (SortedMap κ ν) := fun a b =>
  decidable_of_iff (a.entries = b.entries) ⟨ext, fun h => h ▸ rfl⟩

def empty : SortedMap κ ν := ⟨[], .nil⟩

instance : EmptyCollection (SortedMap κ ν) := ⟨empty⟩
instance : Inhabited (SortedMap κ ν) := ⟨empty⟩

def keys (m : SortedMap κ ν) : List κ := m.entries.map Prod.fst

def values (m : SortedMap κ ν) : List ν := m.entries.map Prod.snd

def size (m : SortedMap κ ν) : Nat := m.entries.length

def lookup (k : κ) : List (κ × ν) → Option ν
  | [] => none
  | e :: es => if compare k e.1 = .eq then some e.2 else lookup k es

def get? (m : SortedMap κ ν) (k : κ) : Option ν := lookup k m.entries

def contains (m : SortedMap κ ν) (k : κ) : Bool := (m.get? k).isSome

def insertEntry (k : κ) (v : ν) : List (κ × ν) → List (κ × ν)
  | [] => [(k, v)]
  | e :: es =>
    match compare k e.1 with
    | .lt => (k, v) :: e :: es
    | .eq => (k, v) :: es
    | .gt => e :: insertEntry k v es

def eraseEntry (k : κ) (es : List (κ × ν)) : List (κ × ν) :=
  es.filter fun e => compare k e.1 ≠ .eq

def erase (m : SortedMap κ ν) (k : κ) : SortedMap κ ν :=
  ⟨eraseEntry k m.entries, List.Pairwise.filter _ m.ascending⟩

/-- Changes values and leaves keys alone. -/
def mapValues {μ : Type v} (f : κ → ν → μ) (m : SortedMap κ ν) : SortedMap κ μ :=
  ⟨m.entries.map fun e => (e.1, f e.1 e.2), by
    have h := m.ascending
    rw [Ascending, List.pairwise_map]
    exact h⟩

@[simp] theorem get?_empty (k : κ) : (empty : SortedMap κ ν).get? k = none := rfl

theorem mem_insertEntry {k : κ} {v : ν} {es : List (κ × ν)} {e : κ × ν}
    (h : e ∈ insertEntry k v es) : e = (k, v) ∨ e ∈ es := by
  induction es with
  | nil => simpa [insertEntry] using h
  | cons d es ih =>
    simp only [insertEntry] at h
    split at h
    · rcases List.mem_cons.1 h with h | h
      · exact .inl h
      · exact .inr h
    · rcases List.mem_cons.1 h with h | h
      · exact .inl h
      · exact .inr (List.mem_cons_of_mem _ h)
    · rcases List.mem_cons.1 h with h | h
      · exact .inr (h ▸ List.mem_cons_self)
      · rcases ih h with h | h
        · exact .inl h
        · exact .inr (List.mem_cons_of_mem _ h)

theorem length_eraseEntry_le (k : κ) (es : List (κ × ν)) :
    (eraseEntry k es).length ≤ es.length :=
  List.length_filter_le _ _

theorem length_eraseEntry_lt [LawfulEqOrd κ] {k : κ} {es : List (κ × ν)} {e : κ × ν}
    (h : e ∈ es) (hk : e.1 = k) : (eraseEntry k es).length < es.length := by
  refine List.length_filter_lt_length_iff_exists.2 ⟨e, h, ?_⟩
  simp [hk]

theorem size_erase_le (m : SortedMap κ ν) (k : κ) : (m.erase k).size ≤ m.size :=
  length_eraseEntry_le k m.entries

theorem size_erase_lt [LawfulEqOrd κ] {m : SortedMap κ ν} {k : κ} (h : k ∈ m.keys) :
    (m.erase k).size < m.size := by
  obtain ⟨e, he, hk⟩ := List.mem_map.1 h
  exact length_eraseEntry_lt he hk

theorem size_foldl_erase_le (m : SortedMap κ ν) (ks : List κ) :
    (ks.foldl erase m).size ≤ m.size := by
  induction ks generalizing m with
  | nil => exact Nat.le_refl _
  | cons k ks ih => exact Nat.le_trans (ih (m.erase k)) (size_erase_le m k)

section Lookup

variable [LawfulEqOrd κ]

theorem compare_eq_iff {a b : κ} : compare a b = .eq ↔ a = b :=
  ⟨Std.LawfulEqOrd.eq_of_compare, fun h => h ▸ Std.ReflOrd.compare_self⟩

theorem lookup_insertEntry_self (k : κ) (v : ν) (es : List (κ × ν)) :
    lookup k (insertEntry k v es) = some v := by
  induction es with
  | nil => simp [insertEntry, lookup]
  | cons e es ih =>
    simp only [insertEntry]
    split
    · simp [lookup]
    · simp [lookup]
    · rename_i h
      simp [lookup, h, ih]

theorem lookup_insertEntry_of_ne {k k' : κ} (h : k' ≠ k) (v : ν) (es : List (κ × ν)) :
    lookup k' (insertEntry k v es) = lookup k' es := by
  have hne : ¬ compare k' k = .eq := fun e => h (Std.LawfulEqOrd.eq_of_compare e)
  induction es with
  | nil => simp [insertEntry, lookup, hne]
  | cons e es ih =>
    simp only [insertEntry]
    split
    · simp [lookup, hne]
    · rename_i he
      have he : k = e.1 := Std.LawfulEqOrd.eq_of_compare he
      simp [lookup, hne, ← he]
    · simp [lookup, ih]

theorem lookup_eraseEntry (k k' : κ) (es : List (κ × ν)) :
    lookup k' (eraseEntry k es) = if compare k k' = .eq then none else lookup k' es := by
  induction es with
  | nil => simp [eraseEntry, lookup]
  | cons e es ih =>
    simp only [eraseEntry, List.filter_cons] at ih ⊢
    by_cases hk : compare k e.1 = .eq
    · have hk' : k = e.1 := Std.LawfulEqOrd.eq_of_compare hk
      simp only [hk, ne_eq, not_true_eq_false, decide_false, Bool.false_eq_true, if_false, ih]
      split
      · rfl
      · rename_i h
        have : ¬ compare k' e.1 = .eq := fun h' =>
          h (compare_eq_iff.2 (hk'.trans (Std.LawfulEqOrd.eq_of_compare h').symm))
        simp [lookup, this]
    · simp only [hk, ne_eq, not_false_eq_true, decide_true, if_true, lookup, ih]
      split
      · rename_i h
        have : ¬ compare k k' = .eq := fun h' =>
          hk (compare_eq_iff.2 ((Std.LawfulEqOrd.eq_of_compare h').trans
            (Std.LawfulEqOrd.eq_of_compare h)))
        simp [this]
      · rfl

theorem get?_erase_self (m : SortedMap κ ν) (k : κ) : (m.erase k).get? k = none := by
  simp [get?, erase, lookup_eraseEntry]

theorem get?_erase_of_ne (m : SortedMap κ ν) {k k' : κ} (h : k' ≠ k) :
    (m.erase k).get? k' = m.get? k' := by
  have : ¬ compare k k' = .eq := fun e => h (Std.LawfulEqOrd.eq_of_compare e).symm
  simp [get?, erase, lookup_eraseEntry, this]

theorem lookup_eq_some_iff {es : List (κ × ν)} (hs : Ascending Prod.fst es) {k : κ} {v : ν} :
    lookup k es = some v ↔ (k, v) ∈ es := by
  induction es with
  | nil => simp [lookup]
  | cons e es ih =>
    obtain ⟨he, hes⟩ := List.pairwise_cons.1 hs
    simp only [lookup, List.mem_cons]
    split
    · rename_i h
      have h : k = e.1 := Std.LawfulEqOrd.eq_of_compare h
      constructor
      · intro hv
        cases hv
        exact .inl (h ▸ rfl)
      · rintro (rfl | hm)
        · rfl
        · have hlt := he _ hm
          rw [← h, Std.ReflOrd.compare_self] at hlt
          exact nomatch hlt
    · rename_i h
      rw [ih hes]
      constructor
      · exact .inr
      · rintro (rfl | hm)
        · exact absurd Std.ReflOrd.compare_self h
        · exact hm

theorem get?_eq_some_iff {m : SortedMap κ ν} {k : κ} {v : ν} :
    m.get? k = some v ↔ (k, v) ∈ m.entries :=
  lookup_eq_some_iff m.ascending

end Lookup

section Ordered

variable [TransOrd κ] [LawfulEqOrd κ]

theorem ascending_insertEntry (k : κ) (v : ν) {es : List (κ × ν)} (h : Ascending Prod.fst es) :
    Ascending Prod.fst (insertEntry k v es) := by
  induction es with
  | nil => exact List.pairwise_singleton _ _
  | cons e es ih =>
    obtain ⟨he, hes⟩ := List.pairwise_cons.1 h
    simp only [insertEntry]
    split
    · rename_i hk
      refine List.pairwise_cons.2 ⟨fun d hd => ?_, h⟩
      rcases List.mem_cons.1 hd with rfl | hd
      · exact hk
      · exact Std.TransCmp.lt_trans hk (he d hd)
    · rename_i hk
      have hk : k = e.1 := Std.LawfulEqOrd.eq_of_compare hk
      exact List.pairwise_cons.2 ⟨fun d hd => hk ▸ he d hd, hes⟩
    · rename_i hk
      refine List.pairwise_cons.2 ⟨fun d hd => ?_, ih hes⟩
      rcases mem_insertEntry hd with rfl | hd
      · exact Std.OrientedCmp.lt_of_gt hk
      · exact he d hd

def insert (m : SortedMap κ ν) (k : κ) (v : ν) : SortedMap κ ν :=
  ⟨insertEntry k v m.entries, ascending_insertEntry k v m.ascending⟩

/-- Later pairs win. -/
def ofList (es : List (κ × ν)) : SortedMap κ ν :=
  es.foldl (fun m e => m.insert e.1 e.2) empty

theorem get?_insert_self (m : SortedMap κ ν) (k : κ) (v : ν) : (m.insert k v).get? k = some v :=
  lookup_insertEntry_self k v m.entries

theorem get?_insert_of_ne (m : SortedMap κ ν) {k k' : κ} (h : k' ≠ k) (v : ν) :
    (m.insert k v).get? k' = m.get? k' :=
  lookup_insertEntry_of_ne h v m.entries

theorem get?_insert [DecidableEq κ] (m : SortedMap κ ν) (k k' : κ) (v : ν) :
    (m.insert k v).get? k' = if k' = k then some v else m.get? k' := by
  split
  · rename_i h; rw [h, get?_insert_self]
  · rename_i h; rw [get?_insert_of_ne m h]

theorem contains_insert [DecidableEq κ] (m : SortedMap κ ν) (k k' : κ) (v : ν) :
    (m.insert k v).contains k' = (decide (k' = k) || m.contains k') := by
  simp only [contains, get?_insert]
  split <;> simp [*]

omit [LawfulEqOrd κ] in
theorem ascending_eq_of_mem_iff {α : Type w} {key : α → κ} {xs ys : List α}
    (hx : Ascending key xs) (hy : Ascending key ys) (h : ∀ a, a ∈ xs ↔ a ∈ ys) : xs = ys := by
  have irrefl : ∀ a : α, ¬ compare (key a) (key a) = .lt := fun a h => by
    rw [Std.ReflOrd.compare_self] at h
    exact nomatch h
  induction xs generalizing ys with
  | nil =>
    cases ys with
    | nil => rfl
    | cons y ys => exact nomatch (h y).2 List.mem_cons_self
  | cons x xs ih =>
    cases ys with
    | nil => exact nomatch (h x).1 List.mem_cons_self
    | cons y ys =>
      obtain ⟨hx1, hx2⟩ := List.pairwise_cons.1 hx
      obtain ⟨hy1, hy2⟩ := List.pairwise_cons.1 hy
      have hxy : x = y := by
        rcases List.mem_cons.1 ((h x).1 List.mem_cons_self) with e | hxin
        · exact e
        · rcases List.mem_cons.1 ((h y).2 List.mem_cons_self) with e | hyin
          · exact e.symm
          · exact absurd (Std.TransCmp.lt_trans (hx1 y hyin) (hy1 x hxin)) (irrefl x)
      subst hxy
      congr 1
      refine ih hx2 hy2 fun a => ?_
      constructor
      · intro ha
        rcases List.mem_cons.1 ((h a).1 (List.mem_cons_of_mem _ ha)) with e | e
        · exact absurd (e ▸ hx1 a ha) (irrefl x)
        · exact e
      · intro ha
        rcases List.mem_cons.1 ((h a).2 (List.mem_cons_of_mem _ ha)) with e | e
        · exact absurd (e ▸ hy1 a ha) (irrefl x)
        · exact e

/-- Maps that look up alike are equal. -/
theorem ext_get? {a b : SortedMap κ ν} (h : ∀ k, a.get? k = b.get? k) : a = b := by
  refine ext (ascending_eq_of_mem_iff a.ascending b.ascending fun e => ?_)
  rw [← get?_eq_some_iff (k := e.1), ← get?_eq_some_iff (k := e.1), h]

end Ordered

end SortedMap

structure SortedSet (κ : Type u) [Ord κ] where
  toList : List κ
  ascending : Ascending id toList

namespace SortedSet

variable {κ : Type u} [Ord κ]

theorem ext {a b : SortedSet κ} (h : a.toList = b.toList) : a = b := by
  cases a; cases b; cases h; rfl

instance [DecidableEq κ] : DecidableEq (SortedSet κ) := fun a b =>
  decidable_of_iff (a.toList = b.toList) ⟨ext, fun h => h ▸ rfl⟩

def empty : SortedSet κ := ⟨[], .nil⟩

instance : EmptyCollection (SortedSet κ) := ⟨empty⟩
instance : Inhabited (SortedSet κ) := ⟨empty⟩
instance : Membership κ (SortedSet κ) := ⟨fun s k => k ∈ s.toList⟩

instance [DecidableEq κ] (s : SortedSet κ) (k : κ) : Decidable (k ∈ s) :=
  inferInstanceAs (Decidable (k ∈ s.toList))

def insertElement (k : κ) : List κ → List κ
  | [] => [k]
  | x :: xs =>
    match compare k x with
    | .lt => k :: x :: xs
    | .eq => x :: xs
    | .gt => x :: insertElement k xs

instance : Ord (SortedSet κ) := ⟨fun a b => compare a.toList b.toList⟩

theorem mem_insertElement [LawfulEqOrd κ] {k a : κ} {xs : List κ} :
    a ∈ insertElement k xs ↔ a = k ∨ a ∈ xs := by
  induction xs with
  | nil => simp [insertElement]
  | cons x xs ih =>
    simp only [insertElement]
    split
    · simp
    · rename_i h
      have h : k = x := Std.LawfulEqOrd.eq_of_compare h
      simp [h]
    · simp only [List.mem_cons, ih]
      constructor
      · rintro (h | h | h)
        · exact .inr (.inl h)
        · exact .inl h
        · exact .inr (.inr h)
      · rintro (h | h | h)
        · exact .inr (.inl h)
        · exact .inl h
        · exact .inr (.inr h)

section Ordered

variable [TransOrd κ] [LawfulEqOrd κ]

theorem ascending_insertElement (k : κ) {xs : List κ} (h : Ascending id xs) :
    Ascending id (insertElement k xs) := by
  induction xs with
  | nil => exact List.pairwise_singleton _ _
  | cons x xs ih =>
    obtain ⟨hx, hxs⟩ := List.pairwise_cons.1 h
    simp only [insertElement]
    split
    · rename_i hk
      refine List.pairwise_cons.2 ⟨fun d hd => ?_, h⟩
      rcases List.mem_cons.1 hd with rfl | hd
      · exact hk
      · exact Std.TransCmp.lt_trans hk (hx d hd)
    · exact h
    · rename_i hk
      refine List.pairwise_cons.2 ⟨fun d hd => ?_, ih hxs⟩
      rcases mem_insertElement.1 hd with rfl | hd
      · exact Std.OrientedCmp.lt_of_gt hk
      · exact hx d hd

def insert (s : SortedSet κ) (k : κ) : SortedSet κ :=
  ⟨insertElement k s.toList, ascending_insertElement k s.ascending⟩

def ofList (ks : List κ) : SortedSet κ :=
  ks.foldl insert empty

theorem mem_insert {s : SortedSet κ} {k a : κ} : a ∈ s.insert k ↔ a = k ∨ a ∈ s :=
  mem_insertElement

theorem mem_foldl_insert {ks : List κ} {s : SortedSet κ} {a : κ} :
    a ∈ ks.foldl insert s ↔ a ∈ ks ∨ a ∈ s := by
  induction ks generalizing s with
  | nil => simp
  | cons k ks ih =>
    rw [List.foldl_cons, ih, mem_insert, List.mem_cons]
    constructor
    · rintro (h | h | h)
      · exact .inl (.inr h)
      · exact .inl (.inl h)
      · exact .inr h
    · rintro ((h | h) | h)
      · exact .inr (.inl h)
      · exact .inl h
      · exact .inr (.inr h)

theorem mem_ofList {ks : List κ} {a : κ} : a ∈ ofList ks ↔ a ∈ ks := by
  rw [ofList, mem_foldl_insert]
  exact or_iff_left (nomatch ·)

omit [LawfulEqOrd κ] in
/-- Sets with the same elements are equal. -/
theorem ext_mem {a b : SortedSet κ} (h : ∀ k, k ∈ a ↔ k ∈ b) : a = b :=
  ext (SortedMap.ascending_eq_of_mem_iff a.ascending b.ascending h)

instance : TransOrd (SortedSet κ) where
  eq_swap := Std.OrientedOrd.eq_swap (α := List κ)
  isLE_trans := Std.TransOrd.isLE_trans (α := List κ)

instance : LawfulEqOrd (SortedSet κ) where
  eq_of_compare h := ext (Std.LawfulEqOrd.eq_of_compare (α := List κ) h)
  compare_self := Std.ReflOrd.compare_self (α := List κ)

end Ordered

end SortedSet

end TxRecovery
