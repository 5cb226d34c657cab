import Mathlib.Algebra.GroupWithZero.Nat
import Mathlib.Algebra.Order.BigOperators.Group.List
import Mathlib.Algebra.Order.Group.Nat
import Mathlib.Data.List.Induction
import Mathlib.Data.List.Nodup
import Mathlib.Data.List.Perm.Subperm
import TxRecovery.SortedMap

/-!
# Lists, maps and sets

`SortedMap.ofList` and `SortedSet.ofList` put one key after the other in its place. A list in ascending
order comes back unchanged (`ofList_entries`, `ofList_toList`); one without equal keys is what the map holds
(`get?_ofList_iff`); of any other list the last of equal keys is kept (`get?_ofList`), and what is kept weighs
less than the list did (`sum_ofList_le`, `sum_ofList_eq_iff`).
-/

namespace TxRecovery

theorem sum_map_eq_add_length {α : Type} {w : α → Nat} (hw : ∀ a, 0 < w a) (as : List α) :
    (as.map w).sum = (as.map fun a => w a - 1).sum + as.length := by
  induction as with
  | nil => rfl
  | cons a as ih =>
    have := hw a
    simp only [List.map_cons, List.sum_cons, List.length_cons, ih]
    omega

theorem length_le_sum {α : Type} {w : α → Nat} (hw : ∀ a, 0 < w a) (as : List α) : as.length ≤ (as.map w).sum := by
  rw [sum_map_eq_add_length hw]
  exact Nat.le_add_left _ _

theorem eraseDups_concat {α : Type} [DecidableEq α] (xs : List α) (x : α) :
    (xs ++ [x]).eraseDups = if x ∈ xs then xs.eraseDups else xs.eraseDups ++ [x] := by
  rw [List.eraseDups_append]
  by_cases hx : x ∈ xs
  · simp [List.removeAll, hx]
  · simp [List.removeAll, List.eraseDups_cons, hx]

theorem nodup_eraseDups {α : Type} [DecidableEq α] (xs : List α) : xs.eraseDups.Nodup := by
  induction xs using List.reverseRecOn with
  | nil => exact List.nodup_nil
  | append_singleton xs x ih =>
    rw [eraseDups_concat]
    split
    · exact ih
    · rename_i hx
      rw [← List.mem_eraseDups] at hx
      exact List.nodup_append.2 ⟨ih, List.nodup_singleton x, fun a ha b hb => by
        rw [List.mem_singleton.1 hb]
        exact fun h => hx (h ▸ ha)⟩

theorem findIdx?_getElem {α : Type} [DecidableEq α] {xs : List α} (h : xs.Nodup) {i : Nat} (hi : i < xs.length) :
    xs.findIdx? (· == xs[i]) = some i := by
  rw [List.findIdx?_eq_some_iff_getElem]
  refine ⟨hi, beq_self_eq_true _, fun j hj hsame => ?_⟩
  rw [beq_iff_eq, h.getElem_inj_iff] at hsame
  omega

theorem zip_prefix_zip_append {α β : Type} (xs : List α) (ys zs : List β) : xs.zip ys <+: xs.zip (ys ++ zs) := by
  induction ys generalizing xs with
  | nil => simp
  | cons y ys ih =>
    cases xs with
    | nil => simp
    | cons x xs => simpa using ih xs

theorem sum_map_le_of_subset {α : Type} (w : α → Nat) {xs ys : List α} (hxs : xs.Nodup) (h : xs ⊆ ys) :
    (xs.map w).sum ≤ (ys.map w).sum := by
  obtain ⟨zs, hperm, hsub⟩ := List.subperm_of_subset hxs h
  rw [← (hperm.map w).sum_nat]
  exact (hsub.map w).sum_le_sum fun _ _ => Nat.zero_le _

/-- If any two differ, one differs from the first. -/
theorem exists_ne_head_iff {α β : Type} (f : α → β) (a : α) (as : List α) :
    (∃ b ∈ as, f b ≠ f a) ↔ ∃ b ∈ a :: as, ∃ c ∈ a :: as, f b ≠ f c := by
  constructor
  · rintro ⟨b, hb, hne⟩
    exact ⟨b, List.mem_cons_of_mem _ hb, a, List.mem_cons_self, hne⟩
  · rintro ⟨b, hb, c, hc, hne⟩
    by_contra hnone
    have hsame : ∀ b ∈ a :: as, f b = f a := by
      rw [List.forall_mem_cons]
      exact ⟨rfl, fun b hb => by_contra fun hne => hnone ⟨b, hb, hne⟩⟩
    exact hne ((hsame b hb).trans (hsame c hc).symm)

theorem mem_toOption {ε α : Type} {r : Except ε α} {a : α} : a ∈ r.toOption ↔ r = .ok a := by
  cases r <;> simp [Except.toOption]

theorem mem_join_toOption {ε α : Type} {r : Except ε (Option α)} {a : α} :
    a ∈ r.toOption.join ↔ r = .ok (some a) := by
  rcases r with _ | _ | _ <;> simp [Except.toOption]

theorem bind_eq_ok {ε α β : Type} {r : Except ε α} {f : α → Except ε β} {b : β} :
    r >>= f = .ok b ↔ ∃ a, r = .ok a ∧ f a = .ok b := by
  cases r <;> simp [bind, Except.bind]

theorem bind_eq_error {ε α β : Type} {r : Except ε α} {f : α → Except ε β} {e : ε} :
    r >>= f = .error e ↔ r = .error e ∨ ∃ a, r = .ok a ∧ f a = .error e := by
  cases r <;> simp [bind, Except.bind]

theorem map_eq_ok {ε α β : Type} {r : Except ε α} {f : α → β} {b : β} : r.map f = .ok b ↔ ∃ a, r = .ok a ∧ f a = b := by
  cases r <;> simp [Except.map]

theorem map_eq_error {ε α β : Type} {r : Except ε α} {f : α → β} {e : ε} : r.map f = .error e ↔ r = .error e := by
  cases r <;> simp [Except.map]

theorem mapError_eq_ok {ε ε' α : Type} {r : Except ε α} {f : ε → ε'} {a : α} : r.mapError f = .ok a ↔ r = .ok a := by
  cases r <;> simp [Except.mapError]

theorem mapM_eq_ok {ε α β : Type} {f : α → Except ε β} {g : α → β} {xs : List α}
    (h : ∀ x ∈ xs, f x = .ok (g x)) : xs.mapM f = .ok (xs.map g) := by
  induction xs with
  | nil => rfl
  | cons x xs ih =>
    obtain ⟨hx, hxs⟩ := List.forall_mem_cons.1 h
    rw [List.mapM_cons, hx, ih hxs]
    rfl

/-- It succeeds with the results of the elements, each at its place. -/
theorem mapM_eq_ok_iff {ε α β : Type} {f : α → Except ε β} {xs : List α} {ys : List β} :
    xs.mapM f = .ok ys ↔ List.Forall₂ (fun x y => f x = .ok y) xs ys := by
  induction xs generalizing ys with
  | nil =>
    rw [List.forall₂_nil_left_iff, List.mapM_nil]
    exact ⟨fun h => (Except.ok.inj h).symm, fun h => congrArg Except.ok h.symm⟩
  | cons x xs ih =>
    rw [List.mapM_cons, bind_eq_ok, List.forall₂_cons_left_iff]
    constructor
    · rintro ⟨y, hx, h⟩
      obtain ⟨zs, hxs, h⟩ := bind_eq_ok.1 h
      cases h
      exact ⟨y, zs, hx, ih.1 hxs, rfl⟩
    · rintro ⟨y, zs, hx, hxs, rfl⟩
      exact ⟨y, hx, bind_eq_ok.2 ⟨zs, ih.2 hxs, rfl⟩⟩

/-- It fails with the error of the first element that has one. -/
theorem mapM_eq_error_iff {ε α β : Type} {f : α → Except ε β} {xs : List α} {e : ε} :
    xs.mapM f = .error e ↔
      ∃ before x after, xs = before ++ x :: after ∧ (∀ y ∈ before, ∃ z, f y = .ok z) ∧ f x = .error e := by
  induction xs with
  | nil =>
    refine ⟨fun h => ?_, ?_⟩
    · cases h
    · rintro ⟨before, x, after, h, -⟩
      exact absurd h.symm (List.append_ne_nil_of_right_ne_nil before (List.cons_ne_nil x after))
  | cons x xs ih =>
    rw [List.mapM_cons, bind_eq_error]
    constructor
    · rintro (hx | ⟨y, hx, h⟩)
      · exact ⟨[], x, xs, rfl, List.forall_mem_nil _, hx⟩
      · rcases bind_eq_error.1 h with hxs | ⟨ys, -, h⟩
        · obtain ⟨before, x', after, rfl, hbefore, he⟩ := ih.1 hxs
          exact ⟨x :: before, x', after, rfl, List.forall_mem_cons.2 ⟨⟨y, hx⟩, hbefore⟩, he⟩
        · cases h
    · rintro ⟨_ | ⟨y, before⟩, x', after, hsplit, hbefore, he⟩
      · cases hsplit
        exact .inl he
      · cases hsplit
        obtain ⟨⟨z, hx⟩, hbefore⟩ := List.forall_mem_cons.1 hbefore
        exact .inr ⟨z, hx, bind_eq_error.2 (.inl (ih.2 ⟨before, x', after, rfl, hbefore, he⟩))⟩

theorem length_of_mapM {ε α β : Type} {f : α → Except ε β} {xs : List α} {ys : List β} (h : xs.mapM f = .ok ys) :
    ys.length = xs.length :=
  (mapM_eq_ok_iff.1 h).length_eq.symm

theorem exists_of_mem_forall₂ {α β : Type} {R : α → β → Prop} {xs : List α} {ys : List β} {x : α}
    (h : List.Forall₂ R xs ys) (hx : x ∈ xs) : ∃ y ∈ ys, R x y := by
  induction h with
  | nil => exact nomatch hx
  | cons hxy _ ih =>
    rcases List.mem_cons.1 hx with rfl | hx
    · exact ⟨_, List.mem_cons_self, hxy⟩
    · obtain ⟨y, hy, hxy⟩ := ih hx
      exact ⟨y, List.mem_cons_of_mem _ hy, hxy⟩

theorem exists_of_mem_mapM {ε α β : Type} {f : α → Except ε β} {xs : List α} {ys : List β} {y : β}
    (h : xs.mapM f = .ok ys) (hy : y ∈ ys) : ∃ x ∈ xs, f x = .ok y :=
  exists_of_mem_forall₂ (List.Forall₂.flip (mapM_eq_ok_iff.1 h)) hy

namespace SortedMap

variable {κ ν : Type} [Ord κ]

theorem contains_iff {m : SortedMap κ ν} {k : κ} : m.contains k = true ↔ ∃ v, m.get? k = some v := by
  rw [contains, Option.isSome_iff_exists]

theorem not_contains_iff {m : SortedMap κ ν} {k : κ} : m.contains k = false ↔ m.get? k = none := by
  rw [contains, Option.isSome_eq_false_iff, Option.isNone_iff_eq_none]

theorem insertEntry_ne_nil (k : κ) (v : ν) (es : List (κ × ν)) : insertEntry k v es ≠ [] := by
  cases es with
  | nil => exact List.cons_ne_nil _ _
  | cons e es =>
    simp only [insertEntry]
    split <;> exact List.cons_ne_nil _ _

theorem insertEntry_of_gt {k : κ} (v : ν) {es : List (κ × ν)}
    (h : ∀ e ∈ es, compare k e.1 = .gt) : insertEntry k v es = es ++ [(k, v)] := by
  induction es with
  | nil => rfl
  | cons e es ih =>
    simp only [insertEntry, h e List.mem_cons_self, List.cons_append]
    rw [ih fun d hd => h d (List.mem_cons_of_mem _ hd)]

theorem sum_insertEntry_le (w : κ × ν → Nat) (k : κ) (v : ν) (es : List (κ × ν)) :
    ((insertEntry k v es).map w).sum ≤ w (k, v) + (es.map w).sum := by
  induction es with
  | nil => simp [insertEntry]
  | cons e es ih =>
    simp only [insertEntry]
    split <;> simp only [List.map_cons, List.sum_cons] <;> omega

theorem length_le_length_insertEntry (k : κ) (v : ν) (es : List (κ × ν)) :
    es.length ≤ (insertEntry k v es).length := by
  induction es with
  | nil => exact Nat.zero_le _
  | cons e es ih =>
    simp only [insertEntry]
    split <;> simp only [List.length_cons] <;> omega

theorem length_insertEntry_le (k : κ) (v : ν) (es : List (κ × ν)) :
    (insertEntry k v es).length ≤ es.length + 1 := by
  have h := sum_insertEntry_le (fun _ => 1) k v es
  simp only [List.map_const', List.sum_replicate_nat, Nat.mul_one] at h
  omega

theorem lookup_map [Std.LawfulEqOrd κ] (f : κ → ν → μ) (k : κ) (es : List (κ × ν)) :
    lookup k (es.map fun e => (e.1, f e.1 e.2)) = (lookup k es).map (f k) := by
  induction es with
  | nil => rfl
  | cons e es ih =>
    simp only [List.map_cons, lookup, ih]
    split
    · rename_i h
      rw [Std.LawfulEqOrd.eq_of_compare h, Option.map_some]
    · rfl

theorem get?_mapValues [Std.LawfulEqOrd κ] (f : κ → ν → μ) (m : SortedMap κ ν) (k : κ) :
    (m.mapValues f).get? k = (m.get? k).map (f k) :=
  lookup_map f k m.entries

theorem eraseEntry_head [Std.TransOrd κ] {e : κ × ν} {es : List (κ × ν)}
    (h : Ascending Prod.fst (e :: es)) : eraseEntry e.1 (e :: es) = es := by
  have hlt := (List.pairwise_cons.1 h).1
  rw [eraseEntry, List.filter_cons_of_neg (by simp), List.filter_eq_self]
  intro d hd
  simp [hlt d hd]

/-- Erasing the first keys leaves the entries behind them. -/
theorem entries_foldl_erase [Std.TransOrd κ] (m : SortedMap κ ν) (n : Nat) :
    ((m.keys.take n).foldl erase m).entries = m.entries.drop n := by
  obtain ⟨es, hes⟩ := m
  induction es generalizing n with
  | nil => simp [keys]
  | cons e es ih =>
    cases n with
    | zero => rfl
    | succ n =>
      have herase : erase ⟨e :: es, hes⟩ e.1 = ⟨es, hes.tail⟩ := ext (eraseEntry_head hes)
      show (((es.map Prod.fst).take n).foldl erase (erase ⟨e :: es, hes⟩ e.1)).entries = es.drop n
      rw [herase]
      exact ih n hes.tail

theorem mem_values_iff [Std.LawfulEqOrd κ] {m : SortedMap κ ν} {v : ν} :
    v ∈ m.values ↔ ∃ k, m.get? k = some v := by
  rw [values, List.mem_map]
  constructor
  · rintro ⟨e, he, rfl⟩
    exact ⟨e.1, get?_eq_some_iff.2 he⟩
  · rintro ⟨k, hk⟩
    exact ⟨(k, v), get?_eq_some_iff.1 hk, rfl⟩

theorem mem_keys_erase [Std.LawfulEqOrd κ] {m : SortedMap κ ν} {k a : κ} :
    a ∈ (m.erase k).keys ↔ a ∈ m.keys ∧ a ≠ k := by
  simp only [keys, erase, eraseEntry, List.mem_map, List.mem_filter, decide_eq_true_iff, ne_eq, compare_eq_iff]
  constructor
  · rintro ⟨e, ⟨he, hne⟩, rfl⟩
    exact ⟨⟨e, he, rfl⟩, fun h => hne h.symm⟩
  · rintro ⟨⟨e, he, rfl⟩, hne⟩
    exact ⟨e, ⟨he, fun h => hne h.symm⟩, rfl⟩

theorem keys_nodup [Std.ReflOrd κ] (m : SortedMap κ ν) : m.keys.Nodup := by
  rw [keys, List.Nodup, List.pairwise_map]
  refine m.ascending.imp fun {e d} hlt heq => ?_
  rw [heq, Std.ReflOrd.compare_self] at hlt
  exact nomatch hlt

theorem entries_nodup [Std.ReflOrd κ] (m : SortedMap κ ν) : m.entries.Nodup :=
  List.Nodup.of_map Prod.fst m.keys_nodup

variable [Std.TransOrd κ] [Std.LawfulEqOrd κ]

theorem insert_insert [DecidableEq κ] (m : SortedMap κ ν) (k : κ) (v v' : ν) :
    (m.insert k v).insert k v' = m.insert k v' := by
  refine ext_get? fun k' => ?_
  simp only [get?_insert]
  split <;> rfl

theorem entries_foldl_insert (es : List (κ × ν)) (m : SortedMap κ ν)
    (h : Ascending Prod.fst (m.entries ++ es)) :
    (es.foldl (fun m e => m.insert e.1 e.2) m).entries = m.entries ++ es := by
  induction es generalizing m with
  | nil => simp
  | cons e es ih =>
    have hlt := (List.pairwise_append.1 h).2.2
    have hm : (m.insert e.1 e.2).entries = m.entries ++ [e] :=
      insertEntry_of_gt e.2 fun d hd => Std.OrientedCmp.gt_of_lt (hlt d hd e List.mem_cons_self)
    rw [List.foldl_cons, ih, hm, List.append_assoc]
    · rfl
    · rw [hm, List.append_assoc]
      exact h

theorem ofList_entries (m : SortedMap κ ν) : ofList m.entries = m :=
  ext (entries_foldl_insert m.entries empty m.ascending)

theorem mem_entries_foldl_insert {es : List (κ × ν)} {m : SortedMap κ ν} {e : κ × ν}
    (h : e ∈ (es.foldl (fun m e => m.insert e.1 e.2) m).entries) : e ∈ m.entries ∨ e ∈ es := by
  induction es generalizing m with
  | nil => exact .inl h
  | cons d es ih =>
    rcases ih h with h | h
    · rcases mem_insertEntry h with rfl | h
      · exact .inr List.mem_cons_self
      · exact .inl h
    · exact .inr (List.mem_cons_of_mem _ h)

theorem mem_of_mem_ofList {es : List (κ × ν)} {e : κ × ν} (h : e ∈ (ofList es).entries) : e ∈ es :=
  (mem_entries_foldl_insert h).resolve_left List.not_mem_nil

theorem sum_foldl_insert_le (w : κ × ν → Nat) (es : List (κ × ν)) (m : SortedMap κ ν) :
    ((es.foldl (fun m e => m.insert e.1 e.2) m).entries.map w).sum ≤
      (m.entries.map w).sum + (es.map w).sum := by
  induction es generalizing m with
  | nil => simp
  | cons e es ih =>
    have hstep : ((m.insert e.1 e.2).entries.map w).sum ≤ w e + (m.entries.map w).sum :=
      sum_insertEntry_le w e.1 e.2 m.entries
    have := ih (m.insert e.1 e.2)
    rw [List.foldl_cons, List.map_cons, List.sum_cons]
    omega

theorem sum_ofList_le (w : κ × ν → Nat) (es : List (κ × ν)) :
    ((ofList es).entries.map w).sum ≤ (es.map w).sum := by
  have h := sum_foldl_insert_le w es empty
  rwa [show (empty : SortedMap κ ν).entries = [] from rfl, List.map_nil, List.sum_nil, Nat.zero_add] at h

theorem length_ofList_le (es : List (κ × ν)) : (ofList es).entries.length ≤ es.length := by
  simpa using sum_ofList_le (fun _ => 1) es

/-- Putting values that depend on their keys alone. -/
theorem get?_foldl_insert [DecidableEq κ] {F : κ → ν} {us : List (κ × ν)} (h : ∀ u ∈ us, u.2 = F u.1)
    (m : SortedMap κ ν) (k : κ) :
    (us.foldl (fun m u => m.insert u.1 u.2) m).get? k =
      if k ∈ us.map Prod.fst then some (F k) else m.get? k := by
  induction us generalizing m with
  | nil => simp
  | cons u us ih =>
    obtain ⟨hu, hus⟩ := List.forall_mem_cons.1 h
    rw [List.foldl_cons, ih hus, get?_insert, hu, List.map_cons]
    by_cases hk : k ∈ us.map Prod.fst
    · rw [if_pos hk, if_pos (List.mem_cons_of_mem _ hk)]
    · by_cases he : k = u.1
      · rw [if_neg hk, if_pos he, if_pos (he ▸ List.mem_cons_self), he]
      · rw [if_neg hk, if_neg he, if_neg fun hm => (List.mem_cons.1 hm).elim he hk]

theorem get?_foldl_insert_iff [DecidableEq κ] {es : List (κ × ν)} (h : es.Pairwise fun e d => e.1 ≠ d.1)
    (m : SortedMap κ ν) (k : κ) (v : ν) :
    (es.foldl (fun m e => m.insert e.1 e.2) m).get? k = some v ↔
      (k, v) ∈ es ∨ (∀ e ∈ es, k ≠ e.1) ∧ m.get? k = some v := by
  induction es generalizing m with
  | nil => simp
  | cons e es ih =>
    obtain ⟨he, hes⟩ := List.pairwise_cons.1 h
    rw [List.foldl_cons, ih hes, get?_insert, List.mem_cons, List.forall_mem_cons]
    by_cases hk : k = e.1
    · have hnot : (k, v) ∉ es := fun hm => he _ hm hk.symm
      have hhead : some e.2 = some v ↔ (k, v) = e := by
        rw [hk, Prod.ext_iff, Option.some.injEq]
        exact ⟨fun h => ⟨rfl, h.symm⟩, fun h => h.2.symm⟩
      have hne : ∀ d ∈ es, k ≠ d.1 := fun d hd => hk ▸ he d hd
      rw [if_pos hk, hhead]
      constructor
      · rintro (hm | ⟨-, hm⟩)
        · exact absurd hm hnot
        · exact .inl (.inl hm)
      · rintro ((hm | hm) | ⟨⟨hm, -⟩, -⟩)
        · exact .inr ⟨hne, hm⟩
        · exact absurd hm hnot
        · exact absurd hk hm
    · have hhead : (k, v) ≠ e := fun he => hk (congrArg Prod.fst he)
      rw [if_neg hk, or_iff_right hhead, and_iff_right hk]

/-- A list without equal keys is what the map holds. -/
theorem get?_ofList_iff [DecidableEq κ] {es : List (κ × ν)} (h : es.Pairwise fun e d => e.1 ≠ d.1) {k : κ}
    {v : ν} : (ofList es).get? k = some v ↔ (k, v) ∈ es := by
  rw [ofList, get?_foldl_insert_iff h, get?_empty]
  simp

theorem ofList_concat (es : List (κ × ν)) (e : κ × ν) : ofList (es ++ [e]) = (ofList es).insert e.1 e.2 := by
  rw [ofList, List.foldl_append]
  rfl

/-- The last of equal keys wins. -/
theorem get?_ofList [DecidableEq κ] (es : List (κ × ν)) (k : κ) : (ofList es).get? k = es.reverse.lookup k := by
  induction es using List.reverseRecOn with
  | nil => rfl
  | append_singleton es e ih =>
    rw [ofList_concat, get?_insert, ih, List.reverse_concat, List.lookup_cons]
    by_cases hk : k = e.1
    · simp [hk]
    · simp [hk, beq_eq_false_iff_ne.2 hk]

theorem entries_ofList_eq_iff {es : List (κ × ν)} : (ofList es).entries = es ↔ Ascending Prod.fst es := by
  constructor
  · intro h
    rw [← h]
    exact (ofList es).ascending
  · intro h
    exact congrArg entries (ofList_entries ⟨es, h⟩)

theorem ofList_subperm (es : List (κ × ν)) : (ofList es).entries.Subperm es :=
  List.subperm_of_subset (ofList es).entries_nodup fun _ he => mem_of_mem_ofList he

theorem ofList_perm_iff [DecidableEq κ] {es : List (κ × ν)} : (ofList es).entries.Perm es ↔ (es.map Prod.fst).Nodup := by
  constructor
  · intro h
    exact (h.map Prod.fst).nodup_iff.1 (ofList es).keys_nodup
  · intro h
    rw [List.perm_ext_iff_of_nodup (ofList es).entries_nodup (.of_map Prod.fst h)]
    intro e
    rw [← get?_eq_some_iff, get?_ofList_iff (List.pairwise_map.1 h)]

/-- Nothing is lost exactly when no key comes twice. -/
theorem sum_ofList_eq_iff [DecidableEq κ] {w : κ × ν → Nat} (hw : ∀ e, 0 < w e) {es : List (κ × ν)} :
    ((ofList es).entries.map w).sum = (es.map w).sum ↔ (es.map Prod.fst).Nodup := by
  rw [← ofList_perm_iff]
  constructor
  · intro h
    have hle := sum_ofList_le (fun e => w e - 1) es
    rw [sum_map_eq_add_length hw, sum_map_eq_add_length hw] at h
    exact (ofList_subperm es).perm_of_length_le (by omega)
  · intro h
    exact (h.map w).sum_nat

end SortedMap

namespace SortedSet

variable {κ : Type} [Ord κ]

theorem insertElement_of_gt {k : κ} {xs : List κ} (h : ∀ x ∈ xs, compare k x = .gt) :
    insertElement k xs = xs ++ [k] := by
  induction xs with
  | nil => rfl
  | cons x xs ih =>
    simp only [insertElement, h x List.mem_cons_self, List.cons_append]
    rw [ih fun d hd => h d (List.mem_cons_of_mem _ hd)]

theorem length_insertElement_le (k : κ) (xs : List κ) :
    (insertElement k xs).length ≤ xs.length + 1 := by
  induction xs with
  | nil => simp [insertElement]
  | cons x xs ih =>
    simp only [insertElement]
    split <;> simp only [List.length_cons] <;> omega

variable [Std.TransOrd κ] [Std.LawfulEqOrd κ]

theorem toList_foldl_insert (xs : List κ) (s : SortedSet κ) (h : Ascending id (s.toList ++ xs)) :
    (xs.foldl insert s).toList = s.toList ++ xs := by
  induction xs generalizing s with
  | nil => simp
  | cons x xs ih =>
    have hlt := (List.pairwise_append.1 h).2.2
    have hs : (s.insert x).toList = s.toList ++ [x] :=
      insertElement_of_gt fun d hd => Std.OrientedCmp.gt_of_lt (hlt d hd x List.mem_cons_self)
    rw [List.foldl_cons, ih, hs, List.append_assoc]
    · rfl
    · rw [hs, List.append_assoc]
      exact h

theorem ofList_toList (s : SortedSet κ) : ofList s.toList = s :=
  ext (toList_foldl_insert s.toList empty s.ascending)

theorem length_foldl_insert_le (xs : List κ) (s : SortedSet κ) :
    (xs.foldl insert s).toList.length ≤ s.toList.length + xs.length := by
  induction xs generalizing s with
  | nil => simp
  | cons x xs ih =>
    have hstep : (s.insert x).toList.length ≤ s.toList.length + 1 :=
      length_insertElement_le x s.toList
    have := ih (s.insert x)
    rw [List.foldl_cons, List.length_cons]
    omega

theorem length_ofList_le (xs : List κ) : (ofList xs).toList.length ≤ xs.length := by
  have h := length_foldl_insert_le xs empty
  rwa [show (empty : SortedSet κ).toList = [] from rfl, List.length_nil, Nat.zero_add] at h

end SortedSet

end TxRecovery
