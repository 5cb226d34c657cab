import TxRecovery.Proofs.Ledger.Runs
import TxRecovery.Proofs.Payload.Canonical

/-!
# Whose box is whose after a merge

A view that is merged into a stored payload brings new recipients, each with a box (`Payload.joining`), and both
lists grow by them (`mergeRecipients_eq`). So a recipient that has a box keeps it, and the new ones are given theirs
if the stored payload listed as many recipients as boxes (`Payload.boxOf?_merge`). If it did not, a new key and its
box stand as far apart as the ends of the two stored lists (`Payload.boxOf?_joining`): a box that was stored without
a key comes to be the next recipient's (`Ledger.merge_misplaces_box`).
-/

namespace TxRecovery

namespace Payload

variable {p q view : Payload} {known : List PublicKey} {es : List (PublicKey × Bytes)} {e : PublicKey × Bytes}
  {k : PublicKey} {b : Bytes}

/-- Of these pairs, the first of each key that is not known. -/
def newcomers (known : List PublicKey) : List (PublicKey × Bytes) → List (PublicKey × Bytes)
  | [] => []
  | e :: es => if e.1 ∈ known then newcomers known es else e :: newcomers (known ++ [e.1]) es

theorem newcomers_sublist (known : List PublicKey) (es : List (PublicKey × Bytes)) :
    (newcomers known es).Sublist es := by
  induction es generalizing known with
  | nil => exact .slnil
  | cons e es ih =>
    rw [newcomers]
    split
    · exact (ih known).cons e
    · exact (ih _).cons_cons e

theorem lookup_newcomers (known : List PublicKey) (es : List (PublicKey × Bytes)) (k : PublicKey) :
    (newcomers known es).lookup k = if k ∈ known then none else es.lookup k := by
  induction es generalizing known with
  | nil => simp [newcomers]
  | cons e es ih =>
    rw [newcomers, List.lookup_cons]
    by_cases hk : k = e.1
    · subst hk
      split
      · rw [ih, if_pos ‹_›]
      · rw [List.lookup_cons, beq_self_eq_true]
    · have hne : (k == e.1) = false := beq_false_of_ne hk
      split
      · rw [ih, hne]
      · rw [List.lookup_cons, hne, ih]
        simp only [List.mem_append, List.mem_singleton, hk, or_false]

theorem not_mem_of_newcomers (he : e ∈ newcomers known es) : e.1 ∉ known := by
  induction es generalizing known with
  | nil => exact absurd he List.not_mem_nil
  | cons d es ih =>
    rw [newcomers] at he
    split at he
    · exact ih he
    · rcases List.mem_cons.1 he with rfl | he
      · assumption
      · exact fun hk => ih he (List.mem_append_left _ hk)

theorem nodup_newcomers (known : List PublicKey) (es : List (PublicKey × Bytes)) :
    ((newcomers known es).map Prod.fst).Nodup := by
  induction es generalizing known with
  | nil => exact .nil
  | cons e es ih =>
    rw [newcomers]
    split
    · exact ih known
    · refine List.nodup_cons.2 ⟨fun hmem => ?_, ih _⟩
      obtain ⟨d, hd, hsame⟩ := List.mem_map.1 hmem
      exact not_mem_of_newcomers hd (List.mem_append_right _ (List.mem_singleton.2 hsame))

/-- The recipients that a view adds to a payload, each with its box. -/
def joining (p view : Payload) : List (PublicKey × Bytes) := newcomers p.recipients (view.recipients.zip view.boxes)

theorem mergeRecipients_eq (p view : Payload) :
    p.mergeRecipients view =
      { p with
        recipients := p.recipients ++ (p.joining view).map Prod.fst
        boxes := p.boxes ++ (p.joining view).map Prod.snd } := by
  unfold mergeRecipients joining
  generalize view.recipients.zip view.boxes = es
  induction es generalizing p with
  | nil => simp [newcomers]
  | cons e es ih =>
    rw [List.foldl_cons, ih, newcomers]
    by_cases he : e.1 ∈ p.recipients
    · rw [addRecipient_of_mem he, if_pos he]
    · simp [addRecipient_of_not_mem he, he]

/-! ### Boxes -/

/-- The box of a key is what the first of its pairs says. -/
theorem boxOf?_eq_lookup (p : Payload) (k : PublicKey) : p.boxOf? k = (p.recipients.zip p.boxes).lookup k := by
  unfold boxOf?
  generalize p.recipients = ks
  generalize p.boxes = bs
  induction ks generalizing bs with
  | nil => rfl
  | cons d ks ih =>
    rw [List.findIdx?_cons]
    by_cases hd : d = k
    · cases bs <;> simp [hd]
    · have hne : (k == d) = false := beq_false_of_ne (Ne.symm hd)
      cases bs with
      | nil => cases ks.findIdx? (· == k) <;> simp [hd]
      | cons b bs =>
        rw [List.zip_cons_cons, List.lookup_cons, hne, ← ih]
        cases ks.findIdx? (· == k) <;> simp [hd]

theorem lookup_joining (p view : Payload) (k : PublicKey) :
    (p.joining view).lookup k = if k ∈ p.recipients then none else view.boxOf? k := by
  rw [joining, lookup_newcomers, boxOf?_eq_lookup]

theorem Extends.boxOf? (h : p.Extends q) (hb : p.boxOf? k = some b) : q.boxOf? k = some b := by
  obtain ⟨rs, bs, rfl⟩ := h
  unfold Payload.boxOf? at hb ⊢
  cases hi : p.recipients.findIdx? (· == k) with
  | none =>
    rw [hi] at hb
    exact nomatch hb
  | some i =>
    rw [hi] at hb
    rw [(List.prefix_append p.recipients rs).findIdx?_eq_some hi]
    have hlt : i < p.boxes.length := (List.getElem?_eq_some_iff.1 hb).1
    exact (List.getElem?_append_left hlt).trans hb

theorem exists_boxOf? (hlen : p.recipients.length = p.boxes.length) (hk : k ∈ p.recipients) :
    ∃ b, p.boxOf? k = some b := by
  obtain ⟨b, hb⟩ : ∃ b, (k, b) ∈ p.recipients.zip p.boxes := by
    obtain ⟨i, hi, rfl⟩ := List.getElem_of_mem hk
    exact ⟨p.boxes[i], List.mem_iff_getElem.2 ⟨i, by rw [List.length_zip]; omega, List.getElem_zip ..⟩⟩
  cases hbox : p.boxOf? k with
  | some b => exact ⟨b, rfl⟩
  | none =>
    rw [boxOf?_eq_lookup, List.lookup_eq_none_iff] at hbox
    exact absurd (hbox _ hb) (by simp)

/-- What every key is paired with after a merge into as many recipients as boxes. -/
theorem boxOf?_merge (hlen : p.recipients.length = p.boxes.length) (k : PublicKey) :
    (p.mergeRecipients view).boxOf? k = (p.boxOf? k).or (view.boxOf? k) := by
  have hzip : ((p.joining view).map Prod.fst).zip ((p.joining view).map Prod.snd) = p.joining view :=
    (List.zip_of_prod rfl rfl).symm
  rw [mergeRecipients_eq, boxOf?_eq_lookup, List.zip_append hlen, List.lookup_append, ← boxOf?_eq_lookup, hzip,
    lookup_joining]
  split
  · obtain ⟨b, hb⟩ := exists_boxOf? hlen ‹_›
    rw [hb]
    rfl
  · rfl

/-- The place of a new key is counted from the end of the stored keys, that of its box from the end of the stored
boxes. -/
theorem boxOf?_joining {i : Nat} (he : (p.joining view)[i]? = some e) :
    (p.mergeRecipients view).boxOf? e.1 = (p.mergeRecipients view).boxes[p.recipients.length + i]? ∧
      (p.mergeRecipients view).boxes[p.boxes.length + i]? = some e.2 := by
  obtain ⟨hi, rfl⟩ := List.getElem?_eq_some_iff.1 he
  have hold : p.recipients.findIdx? (· == (p.joining view)[i].1) = none :=
    findIdx?_of_not_mem (not_mem_of_newcomers (List.getElem_mem hi))
  have hnew : ((p.joining view).map Prod.fst).findIdx? (· == (p.joining view)[i].1) = some i := by
    have hnodup : ((p.joining view).map Prod.fst).Nodup := nodup_newcomers _ _
    have hplace := findIdx?_getElem hnodup ((List.length_map Prod.fst).symm ▸ hi)
    rwa [List.getElem_map] at hplace
  rw [mergeRecipients_eq]
  constructor
  · rw [Payload.boxOf?, List.findIdx?_append, hold, hnew, Option.none_or, Option.map_some, Nat.add_comm]
  · rw [List.getElem?_append_right (Nat.le_add_right _ _), Nat.add_sub_cancel_left, List.getElem?_map, he,
      Option.map_some]

/-- `q` is `s` with the recipients of `v` that it did not list, each of these once and with its box in `added`. -/
structure Joins (s v : Payload) (added : List (PublicKey × Bytes)) (q : Payload) : Prop where
  eq : q = { s with recipients := s.recipients ++ added.map Prod.fst, boxes := s.boxes ++ added.map Prod.snd }
  order : added.Sublist (v.recipients.zip v.boxes)
  once : (added.map Prod.fst).Nodup
  box : ∀ k, added.lookup k = if k ∈ s.recipients then none else v.boxOf? k
  kept : ∀ k b, s.boxOf? k = some b → q.boxOf? k = some b
  /-- With as many recipients as boxes before, everybody is paired with a box of its own. -/
  aligned : s.recipients.length = s.boxes.length → ∀ k, q.boxOf? k = (s.boxOf? k).or (v.boxOf? k)
  /-- In any case, who is added is paired with what stands in its place, wherever its own box is. -/
  place : ∀ i e, added[i]? = some e →
    q.boxOf? e.1 = q.boxes[s.recipients.length + i]? ∧ q.boxes[s.boxes.length + i]? = some e.2

theorem joins_mergeRecipients (s v : Payload) : s.Joins v (s.joining v) (s.mergeRecipients v) where
  eq := mergeRecipients_eq s v
  order := newcomers_sublist _ _
  once := nodup_newcomers _ _
  box := lookup_joining s v
  kept := fun _ _ hb => (extends_mergeRecipients s v).boxOf? hb
  aligned := boxOf?_merge
  place := fun _ _ he => boxOf?_joining he

end Payload

namespace Ledger

variable {l l' : Ledger} {raw : Bytes} {s v : Payload} {h : TxHash}

/-- What is stored after an accepted commit of a view of a stored payload. -/
theorem payload?_of_commit (hv : Payload.decode raw = .ok v) (hs : l.payload? v.hash = .ok (some s))
    (hc : l.commit raw = .ok (h, l')) (hfit : FitsInMemory l'.tree) :
    h = v.hash ∧ l'.payload? h = .ok (some (s.mergeRecipients v)) := by
  obtain ⟨v', hv', rfl, -, hend⟩ := exists_of_commit hc
  cases hv.symm.trans hv'
  rcases hend with ⟨hnone, -⟩ | ⟨s', hs', -, rfl⟩
  · exact nomatch hnone.symm.trans hs
  · cases hs.symm.trans hs'
    refine ⟨rfl, ?_⟩
    by_cases hsame : s.mergeRecipients v = s
    · rw [if_pos hsame, hsame]
      exact hs
    · rw [if_neg hsame] at hfit ⊢
      have hlt := length_raw_lt_of_save hfit
      exact payload?_of_find? (find?_save_self l v.length_hash_lt hlt)
        (Payload.decode_encode (Payload.fits_of_length_lt hlt))

/-- What an accepted commit makes of a stored payload. -/
theorem commit_joins (hv : Payload.decode raw = .ok v) (hs : l.payload? v.hash = .ok (some s))
    (hc : l.commit raw = .ok (h, l')) (hfit : FitsInMemory l'.tree) :
    h = v.hash ∧ ∃ added q, l'.payload? h = .ok (some q) ∧ s.Joins v added q := by
  obtain ⟨hh, hq⟩ := payload?_of_commit hv hs hc hfit
  exact ⟨hh, s.joining v, s.mergeRecipients v, hq, Payload.joins_mergeRecipients s v⟩

instance : DecidableEq Ledger := fun a b =>
  decidable_of_iff (a.tree = b.tree) ⟨congrArg Ledger.mk, congrArg Ledger.tree⟩

/-- A payload that is stored with a box and no key, or with the key of its recipient. -/
def sampleStored (recipients : List PublicKey) : Payload :=
  { Payload.sample with affected := .empty, recipients, boxes := [[10]] }

/-- A view of it for another recipient. -/
def sampleJoining : Payload := { sampleStored [⟨.replicate 32 2⟩] with boxes := [[12]] }

theorem commit_joins_sample :
    let s := sampleStored [⟨.replicate 32 4⟩]
    let l := ofCommits [s.encode]
    let l' := ofCommits [s.encode, sampleJoining.encode]
    l.commit sampleJoining.encode = .ok (sampleJoining.hash, l') ∧
      ∃ added q, l'.payload? sampleJoining.hash = .ok (some q) ∧ s.Joins sampleJoining added q := by
  intro s l l'
  have hv : Payload.decode sampleJoining.encode = .ok sampleJoining := by decide +kernel
  have hs : l.payload? sampleJoining.hash = .ok (some s) := by decide +kernel
  have hc : l.commit sampleJoining.encode = .ok (sampleJoining.hash, l') := by decide +kernel
  exact ⟨hc, (commit_joins hv hs hc (by decide +kernel)).2⟩

/-- The key of the view is given the box that was stored without a key. -/
theorem merge_misplaces_box : ¬ ∀ (l : Ledger) (raw : Bytes) (s v : Payload) (h : TxHash) (l' : Ledger),
    Payload.decode raw = .ok v → l.payload? v.hash = .ok (some s) → l.commit raw = .ok (h, l') →
      FitsInMemory l'.tree → ∀ k b, s.boxOf? k = none → v.boxOf? k = some b →
        ∃ q, l'.payload? v.hash = .ok (some q) ∧ q.boxOf? k = some b := by
  intro hall
  obtain ⟨q, hq, hbox⟩ := hall (ofCommits [(sampleStored []).encode]) sampleJoining.encode (sampleStored [])
    sampleJoining sampleJoining.hash (ofCommits [(sampleStored []).encode, sampleJoining.encode])
    (by decide +kernel) (by decide +kernel) (by decide +kernel) (by decide +kernel) ⟨.replicate 32 2⟩ [12] rfl rfl
  have hstored : (ofCommits [(sampleStored []).encode, sampleJoining.encode]).payload? sampleJoining.hash =
      .ok (some { sampleJoining with boxes := [[10], [12]] }) := by decide +kernel
  cases hstored.symm.trans hq
  exact nomatch hbox

end Ledger

end TxRecovery
