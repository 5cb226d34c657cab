import TxRecovery.Proofs.Ledger.Replay
import TxRecovery.Proofs.Ledger.Rows
import TxRecovery.Proofs.Ledger.Runs

/-!
# How a ledger grows

`Ledger.Grows l l'`: the ledger `l'` comes from `l` by payloads that were committed or refused one after the other, with
room for all of them. What each commit keeps, such a run keeps (`replay_induct`). So a ledger stays `Keyed`: a payload
that is stored for the first time goes under its own hash, and one that is merged into keeps the hash under which it was
found (`Committed.keyed`).
-/

namespace TxRecovery

namespace Ledger

variable {l l' : Ledger} {raw : Bytes} {raws : List Bytes} {p : Payload} {t t' : Tally}

theorem keyed_iff : l.Keyed ↔ l.Sound ∧ ∀ h q, l.payload? h = .ok (some q) → q.hash = h := by
  constructor
  · intro hl
    refine ⟨fun k v hv => ?_, fun h q hq => ?_⟩
    · obtain ⟨t, p, ht, hp, -⟩ := hl k v hv
      exact ⟨t, p, ht, hp⟩
    · obtain ⟨-, -, -, -, -, hh⟩ := hl.exists_row hq
      exact hh
  · rintro ⟨hl, hhash⟩ k v hv
    obtain ⟨t, p, ht, hp⟩ := hl k v hv
    have hget : l.tree.get? (TxHash.mk k).bytes = some v := hv
    have hh := hhash ⟨k⟩ p (payload?_of_find? (find?_of_get? hget ht) hp)
    exact ⟨t, p, ht, hp, by rw [hh]⟩

theorem keyed_empty : Ledger.empty.Keyed := fun _ _ h => nomatch h

theorem Keyed.sound (hl : l.Keyed) : l.Sound := (keyed_iff.1 hl).1

theorem Committed.keyed (hc : l.Committed raw p l') (hl : l.Keyed) : l'.Keyed := by
  obtain ⟨hsound, hhash⟩ := keyed_iff.1 hl
  refine keyed_iff.2 ⟨hc.sound, fun h q hq => ?_⟩
  rcases hc.payload?_cases hsound hq with ⟨s, hs, hsq⟩ | ⟨-, rfl, rfl⟩
  · rw [hsq.hash, hhash h s hs]
  · rfl

/-- What every commit keeps, a replay keeps. -/
theorem replay_induct {P : Ledger → Prop} (hstep : ∀ l raw p l', P l → l.Sound → l.Committed raw p l' → P l')
    (hl : l.Sound) (hd : ∀ raw ∈ raws, ∃ p, Payload.decode raw = .ok p) (hr : l.HasRoom raws) (hP : P l) (t : Tally) :
    P (l.replay t raws).2 := by
  induction raws generalizing l t with
  | nil => exact hP
  | cons raw raws ih =>
    obtain ⟨⟨p, hp⟩, hds⟩ := List.forall_mem_cons.1 hd
    have hroom := hr.head hp
    rcases commit_cases hl hp hroom with ⟨v, hc⟩ | ⟨l₁, ha⟩
    · simp only [replay, hc]
      exact ih hl hds hr.tail hP t.refuse
    · simp only [replay, ha.commit]
      have hc := ha.committed hl hp fun _ => by omega
      exact ih ha.sound hds (hr.accepted hp ha) (hstep l raw p l₁ hP hl hc) t.accept

def Grows (l l' : Ledger) : Prop :=
  ∃ raws, (∀ raw ∈ raws, ∃ p, Payload.decode raw = .ok p) ∧ l.HasRoom raws ∧ ∃ t, l.Replayed .zero raws t l'

theorem Grows.refl (hl : l.Sound) (hfit : FitsInMemory l.tree) : l.Grows l := by
  refine ⟨[], nofun, fun h => ?_, .zero, rfl, hl, .refl l, rfl, Nat.le_refl _, fun _ => nofun⟩
  have hnone : Payload.bytesOf h [] = 0 := rfl
  have := lt_size_of_lt_addressable (weight_lt hfit h)
  omega

theorem Grows.keyed (h : l.Grows l') (hl : l.Keyed) : l'.Keyed := by
  obtain ⟨raws, hd, hroom, t, hr⟩ := h
  have hkeyed := replay_induct (fun _ _ _ _ hl _ hc => hc.keyed hl) hl.sound hd hroom hl .zero
  rwa [hr.replay] at hkeyed

theorem Grows.extends_ (h : l.Grows l') : l.Extends l' := by
  obtain ⟨raws, -, -, t, hr⟩ := h
  exact hr.extends_

/-- In a keyed ledger what is stored stays stored, row by row. -/
theorem Keyed.kept (hl : l.Keyed) (hl' : l'.Keyed) (he : l.Extends l') {k v : Bytes} (hv : l.tree.get? k = some v) :
    ∃ t p, decodeStored StoredTx.format v = .ok t ∧ Payload.decode t.raw = .ok p ∧ k = p.hash.bytes ∧
      ∃ v' t' q, l'.tree.get? k = some v' ∧ decodeStored StoredTx.format v' = .ok t' ∧
        Payload.decode t'.raw = .ok q ∧ p.Extends q := by
  obtain ⟨t, p, ht, hp, rfl⟩ := hl k v hv
  obtain ⟨q, hq, hpq⟩ := he p.hash p (payload?_of_find? (find?_of_get? hv ht) hp)
  obtain ⟨v', t', hv', ht', hq', -⟩ := hl'.exists_row hq
  exact ⟨t, p, ht, hp, rfl, v', t', q, hv', ht', hq', hpq⟩

end Ledger

end TxRecovery
