import TxRecovery.Proofs.Payload.Merge

/-!
# Putting the views of a payload together

`p.only ks` is the payload `p` for the recipients `ks`, in that order, each with its own box. If recipients and boxes
of `p` are `Aligned`, its view for one recipient is `p.only [k]` (`Aligned.forRecipient`), and `p` itself is
`p.only p.recipients` (`Aligned.only_recipients`). Merging a view adds its recipient at the end unless it is listed
(`mergeRecipients_only`), so that what views are merged into depends on the order in which recipients first come.
-/

namespace TxRecovery

namespace Payload

variable {p : Payload} {k : PublicKey} {ks : List PublicKey}

/-- Each recipient is listed once, and has a box. -/
structure Aligned (p : Payload) : Prop where
  distinct : p.recipients.Nodup
  boxes : p.boxes.length = p.recipients.length

/-- The box that `k` is paired with, if there is one. -/
def boxFor (p : Payload) (k : PublicKey) : Bytes := (p.boxOf? k).getD []

/-- The payload for these recipients alone. -/
def only (p : Payload) (ks : List PublicKey) : Payload :=
  { p with recipients := ks, boxes := ks.map p.boxFor }

@[simp] theorem hash_only : (p.only ks).hash = p.hash := rfl

/-- Which box a key is paired with, by place. -/
theorem boxOf?_getElem (hp : p.recipients.Nodup) {i : Nat} (hi : i < p.recipients.length) :
    p.boxOf? p.recipients[i] = p.boxes[i]? := by
  rw [boxOf?, findIdx?_getElem hp hi]

theorem Aligned.getElem?_boxes (hp : p.Aligned) {i : Nat} (hi : i < p.recipients.length) :
    p.boxes[i]? = some (p.boxFor p.recipients[i]) := by
  rw [boxFor, boxOf?_getElem hp.distinct hi, List.getElem?_eq_getElem (hp.boxes ▸ hi), Option.getD_some]

theorem Aligned.boxOf? (hp : p.Aligned) (hk : k ∈ p.recipients) : p.boxOf? k = some (p.boxFor k) := by
  obtain ⟨i, hi, rfl⟩ := List.getElem_of_mem hk
  rw [boxOf?_getElem hp.distinct hi, hp.getElem?_boxes hi]

theorem Aligned.forRecipient (hp : p.Aligned) (hk : k ∈ p.recipients) : p.forRecipient k = .ok (p.only [k]) := by
  rw [Payload.forRecipient, hp.boxOf? hk]
  rfl

theorem zip_only (p : Payload) (ks : List PublicKey) :
    (p.only ks).recipients.zip (p.only ks).boxes = ks.map fun k => (k, p.boxFor k) :=
  List.map_prod_left_eq_zip.symm

theorem Aligned.only_recipients (hp : p.Aligned) : p.only p.recipients = p := by
  have hboxes : p.recipients.map p.boxFor = p.boxes := by
    refine List.ext_getElem (by rw [List.length_map, hp.boxes]) fun i h₁ h₂ => ?_
    have hbox := hp.getElem?_boxes (hp.boxes ▸ h₂)
    rw [List.getElem?_eq_getElem h₂, Option.some.injEq] at hbox
    rw [List.getElem_map, hbox]
  rw [only, hboxes]

/-- Recipients keep their boxes. -/
theorem Aligned.boxOf?_only (hp : p.Aligned) (hks : ks.Nodup) (hk : k ∈ ks) (hmem : k ∈ p.recipients) :
    (p.only ks).boxOf? k = p.boxOf? k := by
  obtain ⟨i, hi, rfl⟩ := List.getElem_of_mem hk
  rw [hp.boxOf? hmem]
  have hbox : (p.only ks).boxOf? ks[i] = (p.only ks).boxes[i]? := boxOf?_getElem hks hi
  rw [hbox]
  simp only [only, List.getElem?_map, List.getElem?_eq_getElem hi, Option.map_some]

theorem mergeRecipients_only (p : Payload) (ks : List PublicKey) (k : PublicKey) :
    (p.only ks).mergeRecipients (p.only [k]) = p.only (if k ∈ ks then ks else ks ++ [k]) := by
  show (p.only ks).addRecipient k (p.boxFor k) = _
  by_cases hk : k ∈ ks
  · rw [addRecipient_of_mem hk, if_pos hk]
  · rw [addRecipient_of_not_mem hk, if_neg hk]
    simp only [only, List.map_append, List.map_cons, List.map_nil]

/-! ### Lengths -/

theorem Aligned.length_encode_only_le (hp : p.Aligned) (hks : ks.Nodup) (hsub : ks ⊆ p.recipients) :
    (p.only ks).encode.length ≤ p.encode.length := by
  have hboxes : boxBytes (p.only ks).boxes ≤ boxBytes (p.only p.recipients).boxes := by
    simp only [boxBytes, only, List.map_map]
    exact sum_map_le_of_subset _ hks hsub
  have hkeys : ks.length ≤ p.recipients.length := (List.subperm_of_subset hks hsub).length_le
  rw [hp.only_recipients] at hboxes
  rw [length_encode, length_encode p]
  simp only [coreBytes, only] at hboxes ⊢
  omega

end Payload

end TxRecovery
