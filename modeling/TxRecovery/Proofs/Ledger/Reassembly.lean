import TxRecovery.Proofs.Ledger.Commit
import TxRecovery.Proofs.Payload.Canonical
import TxRecovery.Proofs.Payload.Parts

/-!
# Committing the views of one payload

The views of a payload for single recipients come in any order, and any of them again. `l.holding p ks` is the
ledger `l` with the payload `p` for the recipients `ks`. Committing one more view adds its recipient at the end
unless it is held (`Admits.commit`). So the views of all recipients put the payload together again
(`Admits.reassembles`), and only the order of its recipients tells in which order they came first.
-/

namespace TxRecovery

namespace Ledger

variable {l : Ledger} {p : Payload} {k : PublicKey} {ks : List PublicKey}

/-- Commits one payload after the other, and ends at the first that is refused. -/
def commitAll (l : Ledger) (raws : List Bytes) : Except CommitError Ledger :=
  raws.foldlM (fun l raw => (l.commit raw).map Prod.snd) l

theorem commitAll_concat (l : Ledger) (raws : List Bytes) (raw : Bytes) :
    l.commitAll (raws ++ [raw]) = (l.commitAll raws).bind fun l' => (l'.commit raw).map Prod.snd := by
  rw [commitAll, List.foldlM_append]
  show _ >>= (fun l' => List.foldlM _ l' [raw]) = _
  simp only [List.foldlM_cons, List.foldlM_nil, bind_pure]
  rfl

/-- The payload is new to the ledger and passes its checks. -/
structure Admits (l : Ledger) (p : Payload) : Prop where
  aligned : p.Aligned
  /-- Its binary form has a length that can be written down. -/
  room : p.encode.length < UInt64.size
  not_self : p.hash ∉ p.affected.keys
  absent : l.tree.get? p.hash.bytes = none
  passes : l.checkPrivacy p = .ok ()

/-- The ledger with the payload stored for these recipients, if there are any. -/
def holding (l : Ledger) (p : Payload) (ks : List PublicKey) : Ledger :=
  if ks = [] then l else l.save ⟨p.hash, (p.only ks).encode⟩

theorem Admits.decode_only (hl : l.Admits p) (hks : ks.Nodup) (hsub : ks ⊆ p.recipients) :
    (p.only ks).encode.length < UInt64.size ∧ Payload.decode (p.only ks).encode = .ok (p.only ks) := by
  have hlen := Nat.lt_of_le_of_lt (hl.aligned.length_encode_only_le hks hsub) hl.room
  exact ⟨hlen, Payload.decode_encode (Payload.fits_of_length_lt hlen)⟩

theorem Admits.payload?_holding (hl : l.Admits p) (hne : ks ≠ []) (hks : ks.Nodup) (hsub : ks ⊆ p.recipients) :
    (l.holding p ks).payload? p.hash = .ok (some (p.only ks)) := by
  obtain ⟨hlen, hd⟩ := hl.decode_only hks hsub
  rw [holding, if_neg hne]
  exact payload?_of_find? (find?_save_self l p.length_hash_lt hlen) hd

/-- What the checks read is not touched by the payload itself. -/
theorem Admits.passes_holding (hl : l.Admits p) (ks : List PublicKey) (d : PublicKey) :
    (l.holding p ks).checkPrivacy (p.only [d]) = .ok () := by
  refine Eq.trans (checkPrivacy_congr (p := p.only [d]) fun a ha => payload?_congr ?_) hl.passes
  unfold holding
  split
  · rfl
  · have hne : a ≠ p.hash := fun h => hl.not_self (h ▸ ha)
    exact find?_save_of_ne l hne

/-- One view more adds its recipient behind those that are held. -/
theorem Admits.commit (hl : l.Admits p) (hks : ks.Nodup) (hsub : ks ⊆ p.recipients) (hk : k ∈ p.recipients) :
    (l.holding p ks).commit (p.only [k]).encode =
      .ok (p.hash, l.holding p (if k ∈ ks then ks else ks ++ [k])) := by
  obtain ⟨-, hd⟩ := hl.decode_only (List.nodup_singleton k) (List.cons_subset.2 ⟨hk, List.nil_subset _⟩)
  have hc := hl.passes_holding ks k
  by_cases hne : ks = []
  · subst hne
    have hnone := payload?_of_find?_none (find?_of_get?_none hl.absent)
    exact commit_of_none (p := p.only [k]) hd hc hnone
  · have hs := hl.payload?_holding hne hks hsub
    rw [commit_of_some hd hc hs rfl, Payload.mergeRecipients_only]
    by_cases hmem : k ∈ ks
    · rw [if_pos hmem, if_pos rfl]
      rfl
    · have hgrown : p.only (ks ++ [k]) ≠ p.only ks := fun h => by
        have := congrArg (List.length ∘ Payload.recipients) h
        simp [Payload.only] at this
      simp only [if_neg hmem, if_neg hgrown, holding, if_neg hne, List.append_eq_nil_iff, List.cons_ne_nil, and_false,
        if_false, Payload.hash_only]
      rw [save_save]
      rfl

/-- Whatever views came, and however often, the ledger holds their recipients as they first came. -/
theorem Admits.commitAll (hl : l.Admits p) (hks : ks ⊆ p.recipients) :
    l.commitAll (ks.map fun k => (p.only [k]).encode) = .ok (l.holding p ks.eraseDups) := by
  induction ks using List.reverseRecOn with
  | nil => rfl
  | append_singleton ks k ih =>
    obtain ⟨hinit, hk⟩ := List.append_subset.1 hks
    rw [List.map_append, List.map_cons, List.map_nil, commitAll_concat, ih hinit, Except.bind,
      hl.commit (nodup_eraseDups ks) (fun d hd => hinit (List.mem_eraseDups.1 hd)) (hk List.mem_cons_self),
      eraseDups_concat]
    simp only [List.mem_eraseDups]
    rfl

/-- The views of all recipients, in any order and with repetitions, are each accepted, and what is stored in the
end is the payload with its recipients in the order in which they first came. -/
theorem Admits.reassembles (hl : l.Admits p) (hne : p.recipients ≠ []) (hks : ∀ k, k ∈ ks ↔ k ∈ p.recipients) :
    ∃ views l' q, ks.mapM p.forRecipient = .ok views ∧ l.commitAll (views.map Payload.encode) = .ok l' ∧
      l'.payload? p.hash = .ok (some q) ∧
      q.boxes.length = q.recipients.length ∧ q.recipients.Perm p.recipients ∧
      (q.recipients.zip q.boxes).Perm (p.recipients.zip p.boxes) ∧
      (∀ k ∈ p.recipients, q.boxOf? k = p.boxOf? k) ∧
      q = { p with recipients := q.recipients, boxes := q.boxes } ∧
      (ks.eraseDups = p.recipients → q = p) := by
  have hmem : ∀ k, k ∈ ks.eraseDups ↔ k ∈ p.recipients := fun k => List.mem_eraseDups.trans (hks k)
  have hnodup := nodup_eraseDups ks
  have hperm : ks.eraseDups.Perm p.recipients := (List.perm_ext_iff_of_nodup hnodup hl.aligned.distinct).2 hmem
  have hviews : ks.mapM p.forRecipient = .ok (ks.map fun k => p.only [k]) :=
    mapM_eq_ok fun k hk => hl.aligned.forRecipient ((hks k).1 hk)
  have hcommits := hl.commitAll fun k hk => (hks k).1 hk
  have hstored := hl.payload?_holding (fun h => hne (h ▸ hperm).nil_eq.symm) hnodup fun k hk => (hmem k).1 hk
  refine ⟨_, _, p.only ks.eraseDups, hviews, ?_, hstored, List.length_map _, hperm, ?_, ?_, rfl, ?_⟩
  · rw [List.map_map]
    exact hcommits
  · rw [Payload.zip_only, ← hl.aligned.only_recipients, Payload.zip_only, hl.aligned.only_recipients]
    exact hperm.map _
  · intro k hk
    exact hl.aligned.boxOf?_only hnodup ((hmem k).2 hk) hk
  · intro horder
    rw [horder, hl.aligned.only_recipients]

def sampleBase : Payload := { Payload.sample with ciphertext := [4], affected := .empty }

/-- Affects the base. -/
def sampleWhole : Payload := { Payload.sample with affected := .ofList [(sampleBase.hash, ⟨[70]⟩)] }

def sampleHolder : Ledger := Ledger.empty.save ⟨sampleBase.hash, sampleBase.encode⟩

theorem sampleHolder_admits : sampleHolder.Admits sampleWhole :=
  ⟨⟨by decide, by decide⟩, by decide +kernel, by decide +kernel, by decide +kernel, by decide +kernel⟩

theorem sampleWhole_reassembles :
    let keys : List PublicKey := [⟨.replicate 32 5⟩, ⟨.replicate 32 4⟩, ⟨.replicate 32 5⟩]
    ∃ views l' q, keys.mapM sampleWhole.forRecipient = .ok views ∧
      sampleHolder.commitAll (views.map Payload.encode) = .ok l' ∧
      l'.payload? sampleWhole.hash = .ok (some q) ∧
      q.boxes.length = q.recipients.length ∧ q.recipients.Perm sampleWhole.recipients ∧
      (q.recipients.zip q.boxes).Perm (sampleWhole.recipients.zip sampleWhole.boxes) ∧
      (∀ k ∈ sampleWhole.recipients, q.boxOf? k = sampleWhole.boxOf? k) ∧
      q = { sampleWhole with recipients := q.recipients, boxes := q.boxes } ∧
      (keys.eraseDups = sampleWhole.recipients → q = sampleWhole) := by
  intro keys
  have hkeys : ∀ k, k ∈ keys ↔ k ∈ sampleWhole.recipients := by
    intro k
    simp only [keys, sampleWhole, Payload.sample, List.mem_cons, List.not_mem_nil, or_false]
    tauto
  exact sampleHolder_admits.reassembles (by decide) hkeys

end Ledger

end TxRecovery
