import TxRecovery.Proofs.Payload.Merge

/-!
# Reading the ledger

`Ledger.Sound`: every row reads back as a payload. In such a ledger a hash either has no row or has
one with a payload (`Sound.find?_cases`), and saving a row whose payload reads back keeps it sound and
leaves every other hash alone. `FitsInMemory`: a store that a process can hold, the lengths in which are then
written and read back as they are.
-/

namespace TxRecovery

theorem StoredTx.format_lawful :
    StoredTx.format.Lawful fun t => t.hash.bytes.length < UInt64.size ∧ t.raw.length < UInt64.size :=
  (TxHash.format_lawful.pair Format.bytes_lawful).convert.mono fun _ h => ⟨h, rfl⟩

theorem StoredTx.format_compact :
    StoredTx.format.Compact fun t => t.hash.bytes.length < UInt64.size ∧ t.raw.length < UInt64.size :=
  ((TxHash.format_exact.pair Format.bytes_exact).convert (fun _ h => h) fun _ => rfl).compact

theorem StoredTx.length_raw_le (t : StoredTx) : t.raw.length ≤ (StoredTx.format.write t).length := by
  show _ ≤ (TxHash.format.write t.hash ++ (_ ++ t.raw)).length
  rw [List.length_append, List.length_append]
  omega

theorem decodeStored_eq_ok {α : Type} {f : Format α} {bs : Bytes} {a : α} :
    decodeStored f bs = .ok a ↔ f.decode bs = .ok a := by
  unfold decodeStored
  cases f.decode bs <;> simp [Except.mapError]

theorem decodeStored_eq_error {α : Type} {f : Format α} {bs : Bytes} {e : DbError} :
    decodeStored f bs = .error e ↔ ∃ d, f.decode bs = .error d ∧ e = .serialization d.message := by
  unfold decodeStored
  cases f.decode bs <;> simp [Except.mapError, eq_comm]

theorem TxHash.eq_of_bytes_eq {g h : TxHash} (e : g.bytes = h.bytes) : g = h := by
  cases g; cases h; cases e; rfl

theorem TxHash.bytes_ne {g h : TxHash} (e : g ≠ h) : g.bytes ≠ h.bytes :=
  fun he => e (TxHash.eq_of_bytes_eq he)

theorem Payload.length_hash_lt (p : Payload) : p.hash.bytes.length < UInt64.size := by
  rw [show p.hash.bytes.length = 64 from TxHash.length_ofCiphertext p.ciphertext]
  decide

/-- Half of the addresses, more than a process can fill. -/
def addressable : Nat := UInt64.size / 2

/-- The tree and each of its values can be in memory. -/
structure FitsInMemory (t : Tree) : Prop where
  size : t.size < addressable
  value : ∀ v ∈ t.values, v.length < addressable

instance (t : Tree) : Decidable (FitsInMemory t) :=
  decidable_of_iff (t.size < addressable ∧ ∀ v ∈ t.values, v.length < addressable)
    ⟨fun h => ⟨h.1, h.2⟩, fun h => ⟨h.size, h.value⟩⟩

theorem lt_size_of_lt_addressable {k : Nat} (h : k < addressable) : k < UInt64.size :=
  Nat.lt_of_lt_of_le h (by decide)

theorem fitsInMemory_empty : FitsInMemory .empty := ⟨by decide, nofun⟩

theorem FitsInMemory.length_lt {t : Tree} (ht : FitsInMemory t) {k v : Bytes} (hv : t.get? k = some v) :
    v.length < addressable :=
  ht.value v (SortedMap.mem_values_iff.2 ⟨k, hv⟩)

namespace Ledger

variable {l : Ledger} {g h : TxHash} {t : StoredTx} {p : Payload}

def Sound (l : Ledger) : Prop :=
  ∀ k v, l.tree.get? k = some v →
    ∃ t p, decodeStored StoredTx.format v = .ok t ∧ Payload.decode t.raw = .ok p

theorem sound_empty : Ledger.empty.Sound := fun _ _ h => nomatch h

theorem find?_of_get? {v : Bytes} (hv : l.tree.get? h.bytes = some v)
    (ht : decodeStored StoredTx.format v = .ok t) : l.find? h = .ok (some t) := by
  simp only [find?, hv, ht, Except.map]

theorem find?_of_get?_none (hv : l.tree.get? h.bytes = none) : l.find? h = .ok none := by
  simp only [find?, hv]

theorem find?_eq_some (hf : l.find? h = .ok (some t)) :
    ∃ v, l.tree.get? h.bytes = some v ∧ decodeStored StoredTx.format v = .ok t := by
  unfold find? at hf
  split at hf
  · rename_i v hv
    refine ⟨v, hv, ?_⟩
    cases ht : decodeStored StoredTx.format v with
    | error e => rw [ht] at hf; exact nomatch hf
    | ok t' => rw [ht] at hf; cases hf; rfl
  · exact nomatch hf

theorem payload?_of_find?_none (hf : l.find? h = .ok none) : l.payload? h = .ok none := by
  simp only [payload?, hf, Except.mapError, bind, Except.bind]

theorem payload?_of_find? (hf : l.find? h = .ok (some t)) (hp : Payload.decode t.raw = .ok p) :
    l.payload? h = .ok (some p) := by
  simp only [payload?, hf, hp, Except.mapError, bind, Except.bind, Except.map]

theorem payload?_congr {l' : Ledger} (hf : l'.find? h = l.find? h) : l'.payload? h = l.payload? h := by
  unfold payload?
  rw [hf]

theorem exists_get?_of_payload? (hp : l.payload? h = .ok (some p)) : ∃ v, l.tree.get? h.bytes = some v := by
  cases hv : l.tree.get? h.bytes with
  | some v => exact ⟨v, rfl⟩
  | none =>
    have hnone := payload?_of_find?_none (find?_of_get?_none hv)
    exact nomatch hnone.symm.trans hp

theorem Sound.find?_cases (hl : l.Sound) (h : TxHash) :
    l.find? h = .ok none ∨ ∃ t p, l.find? h = .ok (some t) ∧ Payload.decode t.raw = .ok p := by
  cases hv : l.tree.get? h.bytes with
  | none => exact .inl (find?_of_get?_none hv)
  | some v =>
    obtain ⟨t, p, ht, hp⟩ := hl _ v hv
    exact .inr ⟨t, p, find?_of_get? hv ht, hp⟩

theorem Sound.payload?_cases (hl : l.Sound) (h : TxHash) :
    l.payload? h = .ok none ∨ ∃ p, l.payload? h = .ok (some p) := by
  rcases hl.find?_cases h with hf | ⟨t, p, hf, hp⟩
  · exact .inl (payload?_of_find?_none hf)
  · exact .inr ⟨p, payload?_of_find? hf hp⟩

/-! ### Saving -/

theorem get?_save_self (l : Ledger) (t : StoredTx) :
    (l.save t).tree.get? t.hash.bytes = some (StoredTx.format.write t) :=
  SortedMap.get?_insert_self _ _ _

theorem find?_save_self (l : Ledger) (ht : t.hash.bytes.length < UInt64.size)
    (hr : t.raw.length < UInt64.size) : (l.save t).find? t.hash = .ok (some t) :=
  find?_of_get? (get?_save_self l t)
    (decodeStored_eq_ok.2 (StoredTx.format_lawful.decode_write ⟨ht, hr⟩))

theorem find?_save_of_ne (l : Ledger) (hne : g ≠ t.hash) : (l.save t).find? g = l.find? g := by
  unfold find? save
  rw [SortedMap.get?_insert_of_ne _ (TxHash.bytes_ne hne)]

theorem save_save (l : Ledger) {t' : StoredTx} (ht : t'.hash = t.hash) : (l.save t).save t' = l.save t' := by
  rw [save, save, save, ht, SortedMap.insert_insert]

theorem Sound.save (hl : l.Sound) (ht : t.hash.bytes.length < UInt64.size)
    (hr : t.raw.length < UInt64.size) (hp : Payload.decode t.raw = .ok p) : (l.save t).Sound := by
  intro k v hv
  unfold Ledger.save at hv
  rw [SortedMap.get?_insert] at hv
  split at hv
  · cases hv
    exact ⟨t, p, decodeStored_eq_ok.2 (StoredTx.format_lawful.decode_write ⟨ht, hr⟩), hp⟩
  · exact hl k v hv

/-! ### Weights -/

/-- How many bytes the payload stored under a hash takes. -/
def weight (l : Ledger) (h : TxHash) : Nat :=
  match l.find? h with
  | .ok (some t) => t.raw.length
  | _ => 0

theorem weight_of_find? (hf : l.find? h = .ok (some t)) : l.weight h = t.raw.length := by
  simp only [weight, hf]

theorem weight_congr {l' : Ledger} (hf : l'.find? h = l.find? h) : l'.weight h = l.weight h := by
  unfold weight
  rw [hf]

theorem weight_le {v : Bytes} (hv : l.tree.get? h.bytes = some v) : l.weight h ≤ v.length := by
  unfold weight
  split
  · rename_i t ht
    obtain ⟨v', hv', hd⟩ := find?_eq_some ht
    cases hv.symm.trans hv'
    exact Nat.le_trans t.length_raw_le (StoredTx.format_compact.length_write_le (decodeStored_eq_ok.1 hd))
  · exact Nat.zero_le _

theorem weight_eq_zero (hv : l.tree.get? h.bytes = none) : l.weight h = 0 := by
  simp only [weight, find?_of_get?_none hv]

theorem weight_lt (hl : FitsInMemory l.tree) (h : TxHash) : l.weight h < addressable := by
  cases hv : l.tree.get? h.bytes with
  | none =>
    rw [weight_eq_zero hv]
    decide
  | some v => exact Nat.lt_of_le_of_lt (weight_le hv) (hl.length_lt hv)

end Ledger

end TxRecovery
