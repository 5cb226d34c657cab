import TxRecovery.Ledger.Commit
import TxRecovery.Proofs.Payload.Codec

/-!
# Narrowing and merging payloads

`Payload.Extends p q`: `q` is `p` with recipients and boxes added behind those of `p`. Merging a view
extends the payload (`extends_mergeRecipients`), lists every key that the view pairs with a box
(`mem_mergeRecipients`) and makes the payload longer by at most the view (`length_encode_merge_le`).
-/

namespace TxRecovery

namespace Payload

variable {p q r view : Payload} {k : PublicKey}

def Extends (p q : Payload) : Prop :=
  ∃ rs bs, q = { p with recipients := p.recipients ++ rs, boxes := p.boxes ++ bs }

namespace Extends

theorem refl (p : Payload) : p.Extends p := ⟨[], [], by simp⟩

theorem trans (h : p.Extends q) (h' : q.Extends r) : p.Extends r := by
  obtain ⟨rs, bs, rfl⟩ := h
  obtain ⟨rs', bs', rfl⟩ := h'
  exact ⟨rs ++ rs', bs ++ bs', by simp⟩

theorem mode (h : p.Extends q) : q.mode = p.mode := by
  obtain ⟨rs, bs, rfl⟩ := h
  rfl

theorem hash (h : p.Extends q) : q.hash = p.hash := by
  obtain ⟨rs, bs, rfl⟩ := h
  rfl

theorem affected (h : p.Extends q) : q.affected = p.affected := by
  obtain ⟨rs, bs, rfl⟩ := h
  rfl

theorem execHash (h : p.Extends q) : q.execHash = p.execHash := by
  obtain ⟨rs, bs, rfl⟩ := h
  rfl

theorem mem_recipients (h : p.Extends q) (hk : k ∈ p.recipients) : k ∈ q.recipients := by
  obtain ⟨rs, bs, rfl⟩ := h
  exact List.mem_append_left rs hk

end Extends

/-! ### Merging -/

theorem hasRecipient_iff : p.hasRecipient k = true ↔ k ∈ p.recipients := by
  simp [hasRecipient]

theorem findIdx?_of_not_mem (hk : k ∉ p.recipients) : p.recipients.findIdx? (· == k) = none :=
  List.idxOf?_eq_none_iff.2 hk

theorem withRecipient_of_mem (hk : k ∈ p.recipients) : p.withRecipient k = p := if_pos (hasRecipient_iff.2 hk)

theorem withRecipient_of_not_mem (hk : k ∉ p.recipients) :
    p.withRecipient k = { p with recipients := p.recipients ++ [k] } := if_neg fun h => hk (hasRecipient_iff.1 h)

theorem mem_withRecipient (p : Payload) (k : PublicKey) : k ∈ (p.withRecipient k).recipients := by
  by_cases hk : k ∈ p.recipients
  · rw [withRecipient_of_mem hk]
    exact hk
  · rw [withRecipient_of_not_mem hk]
    exact List.mem_append_right _ (List.mem_singleton_self k)

theorem addRecipient_of_mem (hk : k ∈ p.recipients) (b : Bytes) : p.addRecipient k b = p :=
  if_pos (hasRecipient_iff.2 hk)

theorem addRecipient_of_not_mem (hk : k ∉ p.recipients) (b : Bytes) :
    p.addRecipient k b = { p with recipients := p.recipients ++ [k], boxes := p.boxes ++ [b] } :=
  if_neg fun h => hk (hasRecipient_iff.1 h)

theorem extends_addRecipient (p : Payload) (k : PublicKey) (b : Bytes) :
    p.Extends (p.addRecipient k b) := by
  unfold addRecipient
  split
  · exact .refl p
  · exact ⟨[k], [b], rfl⟩

theorem mem_addRecipient (p : Payload) (k : PublicKey) (b : Bytes) :
    k ∈ (p.addRecipient k b).recipients := by
  unfold addRecipient
  split
  · exact hasRecipient_iff.1 ‹_›
  · simp

theorem extends_foldl_addRecipient (es : List (PublicKey × Bytes)) (p : Payload) :
    p.Extends (es.foldl (fun p e => p.addRecipient e.1 e.2) p) := by
  induction es generalizing p with
  | nil => exact .refl p
  | cons e es ih => exact (extends_addRecipient p e.1 e.2).trans (ih _)

theorem extends_mergeRecipients (p view : Payload) : p.Extends (p.mergeRecipients view) :=
  extends_foldl_addRecipient _ p

theorem mem_foldl_addRecipient {es : List (PublicKey × Bytes)} {e : PublicKey × Bytes} (p : Payload)
    (h : e ∈ es) : e.1 ∈ (es.foldl (fun p e => p.addRecipient e.1 e.2) p).recipients := by
  induction es generalizing p with
  | nil => exact absurd h List.not_mem_nil
  | cons d es ih =>
    rcases List.mem_cons.1 h with rfl | h
    · exact (extends_foldl_addRecipient es _).mem_recipients (mem_addRecipient p e.1 e.2)
    · exact ih _ h

theorem mem_mergeRecipients {e : PublicKey × Bytes} (p : Payload)
    (h : e ∈ view.recipients.zip view.boxes) : e.1 ∈ (p.mergeRecipients view).recipients :=
  mem_foldl_addRecipient p h

/-- A view whose keys are all listed adds nothing. -/
theorem mergeRecipients_eq_self (h : ∀ e ∈ view.recipients.zip view.boxes, e.1 ∈ p.recipients) :
    p.mergeRecipients view = p := by
  unfold mergeRecipients
  generalize view.recipients.zip view.boxes = es at h
  induction es with
  | nil => rfl
  | cons e es ih =>
    obtain ⟨he, hes⟩ := List.forall_mem_cons.1 h
    rw [List.foldl_cons, addRecipient_of_mem he, ih hes]

/-! ### Lengths -/

def listBytes (p : Payload) : Nat := boxBytes p.boxes + 32 * p.recipients.length

theorem length_encode_eq (p : Payload) : p.encode.length = p.coreBytes + p.listBytes := by
  rw [length_encode, listBytes, Nat.add_assoc]

theorem listBytes_addRecipient_le (p : Payload) (k : PublicKey) (b : Bytes) :
    (p.addRecipient k b).listBytes ≤ p.listBytes + (40 + b.length) := by
  unfold addRecipient
  split
  · omega
  · simp only [listBytes, boxBytes, List.map_append, List.sum_append, List.length_append, List.map_cons,
      List.map_nil, List.sum_cons, List.sum_nil, List.length_cons, List.length_nil]
    omega

theorem listBytes_foldl_le (es : List (PublicKey × Bytes)) (p : Payload) :
    (es.foldl (fun p e => p.addRecipient e.1 e.2) p).listBytes ≤
      p.listBytes + (es.map fun e => 40 + e.2.length).sum := by
  induction es generalizing p with
  | nil => simp
  | cons e es ih =>
    have := ih (p.addRecipient e.1 e.2)
    have := listBytes_addRecipient_le p e.1 e.2
    simp only [List.foldl_cons, List.map_cons, List.sum_cons]
    omega

theorem sum_zip_le (ks : List PublicKey) (bs : List Bytes) :
    ((ks.zip bs).map fun e => 40 + e.2.length).sum ≤ boxBytes bs + 32 * ks.length := by
  induction ks generalizing bs with
  | nil => simp
  | cons k ks ih =>
    cases bs with
    | nil => simp
    | cons b bs =>
      have := ih bs
      simp only [List.zip_cons_cons, List.map_cons, List.sum_cons, boxBytes, List.length_cons] at this ⊢
      omega

theorem coreBytes_eq_of_extends (h : p.Extends q) : q.coreBytes = p.coreBytes := by
  obtain ⟨rs, bs, rfl⟩ := h
  rfl

theorem length_encode_merge_le (p view : Payload) :
    (p.mergeRecipients view).encode.length ≤ p.encode.length + view.encode.length := by
  have hfold := listBytes_foldl_le (view.recipients.zip view.boxes) p
  have hzip := sum_zip_le view.recipients view.boxes
  have hcore := coreBytes_eq_of_extends (extends_mergeRecipients p view)
  rw [length_encode_eq, length_encode_eq p, length_encode view, hcore, mergeRecipients]
  omega

theorem length_le_boxBytes (bs : List Bytes) : bs.length ≤ boxBytes bs := by
  have hpos : ∀ b : Bytes, 0 < 8 + b.length := fun b => by omega
  exact length_le_sum hpos bs

theorem le_boxBytes_of_mem {b : Bytes} {bs : List Bytes} (h : b ∈ bs) : 8 + b.length ≤ boxBytes bs :=
  List.le_sum_of_mem (List.mem_map_of_mem h)

theorem affectedFits_of_length_lt {m : SortedMap TxHash SecurityHash}
    (h : (affectedFormat.write m).length < UInt64.size) : AffectedFits m := by
  have hlen : (affectedFormat.write m).length = 8 + (m.entries.map Listing.entryBytes).sum :=
    Format.length_write_list Listing.entryFormat m.entries
  have hsize : m.size ≤ _ := length_le_sum Listing.entryBytes_pos m.entries
  refine ⟨by omega, fun e he => ?_⟩
  have := List.le_sum_of_mem (List.mem_map_of_mem (f := Listing.entryBytes) he)
  have := Listing.entryBytes_eq e
  omega

/-- What is short enough as a whole fits. -/
theorem fits_of_length_lt (h : p.encode.length < UInt64.size) : p.Fits := by
  rw [length_encode, coreBytes] at h
  have := length_le_boxBytes p.boxes
  refine ⟨by omega, by omega, fun b hb => ?_, by omega, affectedFits_of_length_lt (by omega), by omega⟩
  have := le_boxBytes_of_mem hb
  omega

/-! ### Narrowing -/

theorem forRecipient_of_mem (hlen : p.recipients.length = p.boxes.length) (hk : k ∈ p.recipients) :
    ∃ b ∈ p.boxes, p.forRecipient k = .ok { p with recipients := [k], boxes := [b] } := by
  have hsome : (p.recipients.findIdx? (· == k)).isSome := by
    rw [List.findIdx?_isSome, List.any_eq_true]
    exact ⟨k, hk, by simp⟩
  obtain ⟨i, hi⟩ := Option.isSome_iff_exists.1 hsome
  have hlt : i < p.boxes.length := by
    rw [← hlen]
    exact (List.findIdx?_eq_some_iff_getElem.1 hi).1
  refine ⟨p.boxes[i], List.getElem_mem hlt, ?_⟩
  simp only [forRecipient, boxOf?, hi, List.getElem?_eq_getElem hlt]

theorem length_encode_narrow_le {b : Bytes} (hk : k ∈ p.recipients) (hb : b ∈ p.boxes) :
    ({ p with recipients := [k], boxes := [b] } : Payload).encode.length ≤ p.encode.length := by
  have h1 : boxBytes [b] ≤ boxBytes p.boxes := by
    simpa [boxBytes] using le_boxBytes_of_mem hb
  have h2 := List.length_pos_of_mem hk
  rw [length_encode, length_encode p]
  simp only [coreBytes, List.length_cons, List.length_nil]
  omega

end Payload

end TxRecovery
