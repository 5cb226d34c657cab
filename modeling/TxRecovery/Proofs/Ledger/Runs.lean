import Mathlib.Data.List.Infix
import TxRecovery.Proofs.Ledger.Commit

/-!
# Runs of commits

`Ledger.ofCommits raws` comes from the empty ledger by commits of `raws`, one after the other, each accepted or
refused. An accepted commit is `Committed`: the payload passed every check against the ledger that it came to, and
what is stored afterwards extends what was stored before or is the payload itself (`Committed.payload?_cases`). So an
invariant of what commits build need only be kept by these, as long as the ledger fits in memory
(`ofCommits_induct`).
-/

namespace TxRecovery

namespace Ledger

variable {l l' : Ledger} {raw : Bytes} {raws : List Bytes} {p q : Payload} {t : StoredTx} {h : TxHash}

/-- The commit of `p`, in the form `raw`, passed every check in `l` and made `l'` of it. -/
structure Committed (l : Ledger) (raw : Bytes) (p : Payload) (l' : Ledger) : Prop extends Accepted l raw p l' where
  passes : l.Passes p
  new : l.payload? p.hash = .ok none → l'.payload? p.hash = .ok (some p)

theorem length_raw_lt_of_find? (hfit : FitsInMemory l.tree) (hf : l.find? h = .ok (some t)) :
    t.raw.length < UInt64.size :=
  lt_size_of_lt_addressable (weight_of_find? hf ▸ weight_lt hfit h)

theorem length_raw_lt_of_save (hfit : FitsInMemory (l.save t).tree) : t.raw.length < UInt64.size :=
  lt_size_of_lt_addressable (Nat.lt_of_le_of_lt t.length_raw_le (hfit.length_lt (get?_save_self l t)))

theorem Accepted.committed (ha : l.Accepted raw p l') (hl : l.Sound) (hp : Payload.decode raw = .ok p)
    (hraw : l.payload? p.hash = .ok none → raw.length < UInt64.size) : l.Committed raw p l' := by
  obtain ⟨p', hp', -, hcheck, hend⟩ := exists_of_commit ha.commit
  cases hp.symm.trans hp'
  obtain ⟨hexec, haffected⟩ := (checkPrivacy_eq_ok hl).1 hcheck
  rcases hend with ⟨hnone, rfl⟩ | ⟨s, hs, hm, -⟩
  · exact ⟨ha, ⟨hexec, haffected, fun s hs => nomatch hnone.symm.trans hs⟩,
      fun _ => payload?_of_find? (find?_save_self l p.length_hash_lt (hraw hnone)) hp⟩
  · refine ⟨ha, ⟨hexec, haffected, fun s' hs' => ?_⟩, fun hnone => nomatch hnone.symm.trans hs⟩
    cases hs.symm.trans hs'
    exact hm

theorem committed_of_commit (hl : l.Sound) (hp : Payload.decode raw = .ok p) (hc : l.commit raw = .ok (h, l'))
    (hfit : FitsInMemory l'.tree) : l.Committed raw p l' := by
  obtain ⟨p', hp', rfl, hcheck, hend⟩ := exists_of_commit hc
  cases hp.symm.trans hp'
  rcases hend with ⟨hnone, rfl⟩ | ⟨s, hs, hm, rfl⟩
  · have hraw := length_raw_lt_of_save hfit
    exact (accepted_of_none hl hp hraw hcheck hnone).committed hl hp fun _ => hraw
  · rcases hl.find?_cases p.hash with hf | ⟨t, s', hf, hs'⟩
    · exact nomatch (payload?_of_find?_none hf).symm.trans hs
    · cases (payload?_of_find? hf hs').symm.trans hs
      have hlt : (s.mergeRecipients p).encode.length < UInt64.size := by
        by_cases hsame : s.mergeRecipients p = s
        · rw [if_pos hsame] at hfit
          rw [hsame]
          exact Nat.lt_of_le_of_lt (Payload.length_encode_le hs') (length_raw_lt_of_find? hfit hf)
        · rw [if_neg hsame] at hfit
          exact length_raw_lt_of_save hfit
      obtain ⟨l', ha⟩ := accepted_of_some hl hp hf hs' hlt hcheck hm
      cases hc.symm.trans ha.commit
      exact ha.committed hl hp fun hnone => nomatch hnone.symm.trans hs

/-- What is stored after a commit was stored before, for fewer parties perhaps, or is the payload. -/
theorem Committed.payload?_cases (hc : l.Committed raw p l') (hl : l.Sound) (hq : l'.payload? h = .ok (some q)) :
    (∃ s, l.payload? h = .ok (some s) ∧ s.Extends q) ∨ l.payload? h = .ok none ∧ h = p.hash ∧ q = p := by
  rcases hl.payload?_cases h with hnone | ⟨s, hs⟩
  · by_cases hh : h = p.hash
    · subst hh
      cases (hc.new hnone).symm.trans hq
      exact .inr ⟨hnone, rfl, rfl⟩
    · rw [payload?_congr (hc.frame h hh), hnone] at hq
      exact nomatch hq
  · obtain ⟨q', hq', hsq⟩ := hc.extends_ h s hs
    cases hq'.symm.trans hq
    exact .inl ⟨s, hs, hsq⟩

/-! ### Runs -/

/-- The ledger after a commit, whether it was accepted or refused. -/
def after (l : Ledger) (raw : Bytes) : Ledger :=
  match l.commit raw with
  | .ok (_, l') => l'
  | .error _ => l

theorem after_cases (hl : l.Sound) (hfit : FitsInMemory (l.after raw).tree) :
    l.after raw = l ∨ ∃ p, Payload.decode raw = .ok p ∧ l.Committed raw p (l.after raw) := by
  unfold after at hfit ⊢
  split
  · rename_i h l' hc
    rw [hc] at hfit
    obtain ⟨p, hp, -⟩ := exists_of_commit hc
    exact .inr ⟨p, hp, committed_of_commit hl hp hc hfit⟩
  · exact .inl rfl

/-- What commits of `raws`, one after the other, make of the empty ledger. -/
def ofCommits (raws : List Bytes) : Ledger := raws.foldl after .empty

theorem ofCommits_concat (raws : List Bytes) (raw : Bytes) :
    ofCommits (raws ++ [raw]) = (ofCommits raws).after raw :=
  List.foldl_concat ..

/-- The ledger fits in memory after each of these commits. -/
def FitsThroughout (raws : List Bytes) : Prop := ∀ done, done <+: raws → FitsInMemory (ofCommits done).tree

instance (raws : List Bytes) : Decidable (FitsThroughout raws) :=
  decidable_of_iff (∀ done ∈ raws.inits, FitsInMemory (ofCommits done).tree) <| by
    simp only [List.mem_inits, FitsThroughout]

/-- What holds of the empty ledger and is kept by every payload, refused or accepted, holds of what commits build. -/
theorem ofCommits_induct {P : List Bytes → Ledger → Prop} (hempty : P [] .empty)
    (hrefused : ∀ raws raw l, P raws l → P (raws ++ [raw]) l)
    (haccepted : ∀ raws raw p l', (ofCommits raws).Sound → P raws (ofCommits raws) →
      (ofCommits raws).Committed raw p l' → Payload.decode raw = .ok p → FitsInMemory l'.tree → P (raws ++ [raw]) l')
    (hfit : FitsThroughout raws) : (ofCommits raws).Sound ∧ P raws (ofCommits raws) := by
  induction raws using List.reverseRecOn with
  | nil => exact ⟨sound_empty, hempty⟩
  | append_singleton raws raw ih =>
    have hlast := hfit _ (List.prefix_refl _)
    obtain ⟨hl, hP⟩ := ih fun done hdone => hfit done (hdone.trans (List.prefix_append _ _))
    rw [ofCommits_concat] at hlast ⊢
    rcases after_cases hl hlast with hsame | ⟨p, hp, hc⟩
    · rw [hsame]
      exact ⟨hl, hrefused raws raw _ hP⟩
    · exact ⟨hc.sound, haccepted raws raw p _ hl hP hc hp hlast⟩

end Ledger

end TxRecovery
