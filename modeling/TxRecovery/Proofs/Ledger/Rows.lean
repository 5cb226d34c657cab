import TxRecovery.Proofs.Ledger.Lookup

/-!
# Ledgers, row by row

In a ledger that is `Keyed` the pages are cut from one list of rows (`Keyed.page`), which has a row for each
payload that the ledger `Stores` and no other. `Ledger.ofPayloads` is built the other way round, from the
payloads.
-/

namespace TxRecovery

namespace Ledger

variable {l l' : Ledger} {t : StoredTx} {p : Payload}

/-- The payload is stored under its hash. -/
def Stores (l : Ledger) (p : Payload) : Prop := l.payload? p.hash = .ok (some p)

/-- Every row reads back as a payload, under the hash of which it is kept. -/
def Keyed (l : Ledger) : Prop :=
  ∀ k v, l.tree.get? k = some v →
    ∃ t p, decodeStored StoredTx.format v = .ok t ∧ Payload.decode t.raw = .ok p ∧ k = p.hash.bytes

/-- The rows, in hash order. -/
def rows (l : Ledger) : List StoredTx :=
  l.tree.values.map fun v => (decodeStored StoredTx.format v).toOption.getD default

theorem length_rows (l : Ledger) : l.rows.length = l.size := by
  simp only [rows, SortedMap.values, List.length_map]
  rfl

namespace Keyed

theorem of_entry (hl : l.Keyed) {e : Bytes × Bytes} (he : e ∈ l.tree.entries) :
    ∃ t p, decodeStored StoredTx.format e.2 = .ok t ∧ Payload.decode t.raw = .ok p ∧ e.1 = p.hash.bytes :=
  hl e.1 e.2 (SortedMap.get?_eq_some_iff.2 he)

theorem page (hl : l.Keyed) (offset max : Nat) : l.page offset max = .ok ((l.rows.drop offset).take max) := by
  have hread : ∀ v ∈ (l.tree.values.drop offset).take max, decodeStored StoredTx.format v =
      .ok ((decodeStored StoredTx.format v).toOption.getD default) := by
    intro v hv
    obtain ⟨e, he, rfl⟩ := List.mem_map.1 (List.mem_of_mem_drop (List.mem_of_mem_take hv))
    obtain ⟨t, p, ht, -, -⟩ := hl.of_entry he
    rw [ht]
    rfl
  rw [Ledger.page, mapM_eq_ok hread, rows, List.map_take, List.map_drop]

theorem stores_of_mem (hl : l.Keyed) (ht : t ∈ l.rows) : ∃ p, Payload.decode t.raw = .ok p ∧ l.Stores p := by
  obtain ⟨v, hv, rfl⟩ := List.mem_map.1 ht
  obtain ⟨e, he, rfl⟩ := List.mem_map.1 hv
  obtain ⟨t, p, ht, hp, hk⟩ := hl.of_entry he
  have hget : l.tree.get? p.hash.bytes = some e.2 := hk ▸ SortedMap.get?_eq_some_iff.2 he
  rw [ht]
  exact ⟨p, hp, payload?_of_find? (find?_of_get? hget ht) hp⟩

/-- The row from which a payload is read. -/
theorem exists_row (hl : l.Keyed) {h : TxHash} (hp : l.payload? h = .ok (some p)) :
    ∃ v t, l.tree.get? h.bytes = some v ∧ decodeStored StoredTx.format v = .ok t ∧ Payload.decode t.raw = .ok p ∧
      p.hash = h := by
  obtain ⟨v, hv⟩ := exists_get?_of_payload? hp
  obtain ⟨t, q, ht, hq, hk⟩ := hl _ v hv
  cases (payload?_of_find? (find?_of_get? hv ht) hq).symm.trans hp
  exact ⟨v, t, hv, ht, hq, (TxHash.eq_of_bytes_eq hk).symm⟩

theorem mem_of_stores (hl : l.Keyed) (hp : l.Stores p) : ∃ t ∈ l.rows, Payload.decode t.raw = .ok p := by
  obtain ⟨v, t, hv, ht, hq, -⟩ := hl.exists_row hp
  refine ⟨t, List.mem_map.2 ⟨v, SortedMap.mem_values_iff.2 ⟨_, hv⟩, ?_⟩, hq⟩
  rw [ht]
  rfl

theorem exists_length_raw_le (hl : l.Keyed) (ht : t ∈ l.rows) :
    ∃ v ∈ l.tree.values, t.raw.length ≤ v.length := by
  obtain ⟨v, hv, rfl⟩ := List.mem_map.1 ht
  obtain ⟨e, he, rfl⟩ := List.mem_map.1 hv
  obtain ⟨t, p, ht, -, -⟩ := hl.of_entry he
  have hle := StoredTx.format_compact.length_write_le (decodeStored_eq_ok.1 ht)
  rw [ht]
  exact ⟨e.2, hv, Nat.le_trans t.length_raw_le hle⟩

theorem pairwise_rows (hl : l.Keyed) : l.rows.Pairwise fun t t' =>
    ∀ p q, Payload.decode t.raw = .ok p → Payload.decode t'.raw = .ok q → p.hash ≠ q.hash := by
  rw [rows, SortedMap.values, List.map_map]
  refine List.pairwise_map.2 (l.tree.ascending.imp_of_mem fun {e e'} he he' hlt p q hp hq heq => ?_)
  obtain ⟨t, p', ht, hp', hk⟩ := hl.of_entry he
  obtain ⟨t', q', ht', hq', hk'⟩ := hl.of_entry he'
  rw [Function.comp_apply, ht] at hp
  rw [Function.comp_apply, ht'] at hq
  cases hp'.symm.trans hp
  cases hq'.symm.trans hq
  rw [hk, hk', heq, Std.ReflOrd.compare_self] at hlt
  exact absurd hlt (by decide)

end Keyed

/-! ### Building a ledger -/

theorem ext_get? (h : ∀ k v, l.tree.get? k = some v ↔ l'.tree.get? k = some v) : l = l' := by
  obtain ⟨tree⟩ := l
  obtain ⟨tree'⟩ := l'
  have htree : tree = tree' := SortedMap.ext_get? fun k => Option.ext fun v => h k v
  rw [htree]

/-- One row for each payload, as it is. -/
def ofPayloads (ps : List Payload) : Ledger :=
  ⟨.ofList (ps.map fun p => (p.hash.bytes, StoredTx.format.write ⟨p.hash, p.encode⟩))⟩

variable {ps : List Payload}

theorem get?_ofPayloads (hne : ps.Pairwise fun p q => p.hash ≠ q.hash) (k v : Bytes) :
    (ofPayloads ps).tree.get? k = some v ↔
      ∃ p ∈ ps, k = p.hash.bytes ∧ v = StoredTx.format.write ⟨p.hash, p.encode⟩ := by
  have hpair : (ps.map fun p => (p.hash.bytes, StoredTx.format.write ⟨p.hash, p.encode⟩)).Pairwise
      fun e d => e.1 ≠ d.1 :=
    List.pairwise_map.2 (hne.imp fun h => TxHash.bytes_ne h)
  rw [ofPayloads, SortedMap.get?_ofList_iff hpair, List.mem_map]
  simp only [Prod.mk.injEq, eq_comm]

theorem keyed_ofPayloads (hne : ps.Pairwise fun p q => p.hash ≠ q.hash) (hfits : ∀ p ∈ ps, p.Fits)
    (hlen : ∀ p ∈ ps, p.encode.length < UInt64.size) : (ofPayloads ps).Keyed := by
  intro k v hv
  obtain ⟨p, hp, rfl, rfl⟩ := (get?_ofPayloads hne k v).1 hv
  exact ⟨⟨p.hash, p.encode⟩, p, decodeStored_eq_ok.2 (StoredTx.format_lawful.decode_write
    ⟨p.length_hash_lt, hlen p hp⟩), Payload.decode_encode (hfits p hp), rfl⟩

theorem stores_ofPayloads (hne : ps.Pairwise fun p q => p.hash ≠ q.hash) (hfits : ∀ p ∈ ps, p.Fits)
    (hlen : ∀ p ∈ ps, p.encode.length < UInt64.size) : (ofPayloads ps).Stores p ↔ p ∈ ps := by
  have hread : ∀ q ∈ ps, (ofPayloads ps).payload? q.hash = .ok (some q) := by
    intro q hq
    have hget := (get?_ofPayloads hne _ _).2 ⟨q, hq, rfl, rfl⟩
    have hrow := decodeStored_eq_ok.2 (StoredTx.format_lawful.decode_write
      (a := ⟨q.hash, q.encode⟩) ⟨q.length_hash_lt, hlen q hq⟩)
    exact payload?_of_find? (find?_of_get? hget hrow) (Payload.decode_encode (hfits q hq))
  constructor
  · intro hp
    obtain ⟨v, hv⟩ := exists_get?_of_payload? hp
    obtain ⟨q, hq, hk, -⟩ := (get?_ofPayloads hne _ _).1 hv
    have hstored := hread q hq
    rw [← TxHash.eq_of_bytes_eq hk] at hstored
    cases hstored.symm.trans hp
    exact hq
  · exact hread p

end Ledger

end TxRecovery
