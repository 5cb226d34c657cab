import TxRecovery.Proofs.Ledger.Replay

/-!
# Replaying what was replayed

A payload that is committed again, over what came of the first time, fares as it did then (`replay_again`). If it was
accepted its keys are listed by now, so that it adds nothing. If it was refused the reason is still there. Both need
that what the checks read is as it was, that is, that no payload behind it, nor it itself, is of a transaction that it
affects: it `Spares` them.
-/

namespace TxRecovery

namespace Payload

/-- The first of these payloads does not affect the transaction of the second. -/
def Spares (raw raw' : Bytes) : Prop := ∀ p, decode raw = .ok p → ∀ a ∈ p.affected.keys, isOf a raw' = false

end Payload

namespace Ledger

open Payload (Spares isOf)

variable {l l' : Ledger} {raw : Bytes} {raws : List Bytes} {p : Payload} {a h : TxHash} {t t' : Tally}

/-! ### What a run leaves alone -/

theorem find?_of_commit (hc : l.commit raw = .ok (h, l')) (ha : isOf a raw = false) : l'.find? a = l.find? a := by
  obtain ⟨p, hp, rfl, -, hend⟩ := exists_of_commit hc
  rw [Payload.isOf_of_decode hp, decide_eq_false_iff_not] at ha
  have hne : a ≠ p.hash := fun h => ha h.symm
  rcases hend with ⟨-, rfl⟩ | ⟨s, -, -, rfl⟩
  · exact find?_save_of_ne l hne
  · split
    · rfl
    · exact find?_save_of_ne l hne

theorem find?_of_replay (hr : l.replay t raws = (.ok t', l')) (ha : ∀ raw ∈ raws, isOf a raw = false) :
    l'.find? a = l.find? a := by
  induction raws generalizing l t with
  | nil =>
    cases hr
    rfl
  | cons raw raws ih =>
    obtain ⟨hraw, hraws⟩ := List.forall_mem_cons.1 ha
    unfold replay at hr
    split at hr
    · rename_i h l₁ hc
      exact (ih hr hraws).trans (find?_of_commit hc hraw)
    · exact ih hr hraws
    · exact nomatch hr

theorem checkPrivacy_of_replay (hp : Payload.decode raw = .ok p) (hr : l.replay t raws = (.ok t', l'))
    (hs : ∀ raw' ∈ raws, Spares raw raw') : l'.checkPrivacy p = l.checkPrivacy p := by
  refine checkPrivacy_congr fun a ha => payload?_congr ?_
  exact find?_of_replay hr fun raw' hraw' => hs raw' hraw' p hp a ha

/-! ### The second time -/

theorem commit_covered (hp : Payload.decode raw = .ok p) (hc : l.checkPrivacy p = .ok ()) (hl : l.Covers p) :
    l.commit raw = .ok (p.hash, l) := by
  obtain ⟨q, hq, hm, hkeys⟩ := hl
  rw [commit_of_some hp hc hq hm, if_pos (Payload.mergeRecipients_eq_self hkeys)]

theorem refused_cases {v : PrivacyViolation} (hl : l.Sound) (hp : Payload.decode raw = .ok p)
    (hc : l.commit raw = .error (.privacy v)) :
    (∃ e, l.checkPrivacy p = .error e ∧ IsPrivacy e) ∨
      l.checkPrivacy p = .ok () ∧ ∃ s, l.payload? p.hash = .ok (some s) ∧ s.mode ≠ p.mode := by
  rcases checkPrivacy_cases hl p with hcheck | hcheck
  · refine .inr ⟨hcheck, ?_⟩
    rcases hl.payload?_cases p.hash with hs | ⟨s, hs⟩
    · exact nomatch (commit_of_none hp hcheck hs).symm.trans hc
    · refine ⟨s, hs, fun hm => ?_⟩
      exact nomatch (commit_of_some hp hcheck hs hm).symm.trans hc
  · exact .inl hcheck

/-- A stored transaction keeps its mode, so what was refused for one of these reasons is refused again. -/
theorem refused_again {v : PrivacyViolation} (hl : l.Sound) (hp : Payload.decode raw = .ok p)
    (hc : l.commit raw = .error (.privacy v)) (hext : l.Extends l') (hcheck : l'.checkPrivacy p = l.checkPrivacy p) :
    ∃ v', l'.commit raw = .error (.privacy v') := by
  rcases refused_cases hl hp hc with ⟨_, he, v', rfl⟩ | ⟨hok, s, hs, hm⟩
  · exact ⟨v', commit_of_checkPrivacy hp (hcheck.trans he)⟩
  · obtain ⟨q, hq, hsq⟩ := hext _ s hs
    exact ⟨_, commit_of_mode_ne hp (hcheck.trans hok) hq fun h => hm (hsq.mode.symm.trans h)⟩

/-- What one run came to, another one comes to, and nothing changes. -/
theorem replay_again (hl : l.Sound) (hd : ∀ raw ∈ raws, ∃ p, Payload.decode raw = .ok p) (hroom : l.HasRoom raws)
    (hself : ∀ raw ∈ raws, Spares raw raw) (hs : raws.Pairwise Spares) (hr : l.replay t raws = (.ok t', l')) :
    l'.replay t raws = (.ok t', l') := by
  induction raws generalizing l t with
  | nil =>
    cases hr
    rfl
  | cons raw raws ih =>
    obtain ⟨⟨p, hp⟩, hds⟩ := List.forall_mem_cons.1 hd
    obtain ⟨hown, hselfs⟩ := List.forall_mem_cons.1 hself
    obtain ⟨hbehind, hss⟩ := List.pairwise_cons.1 hs
    have hcheck := checkPrivacy_of_replay hp hr (List.forall_mem_cons.2 ⟨hown, hbehind⟩)
    rcases commit_cases hl hp (hroom.head hp) with ⟨v, hc⟩ | ⟨l₁, ha⟩
    · simp only [replay, hc] at hr
      obtain ⟨_, _, hrest⟩ := exists_replayed hl hds hroom.tail t.refuse
      cases hrest.replay.symm.trans hr
      obtain ⟨v', hc'⟩ := refused_again hl hp hc hrest.extends_ hcheck
      simp only [replay, hc']
      exact ih hl hds hroom.tail hselfs hss hr
    · have hroom₁ := hroom.accepted hp ha
      obtain ⟨p', hp', -, hok, -⟩ := exists_of_commit ha.commit
      cases hp.symm.trans hp'
      simp only [replay, ha.commit] at hr
      obtain ⟨_, _, hrest⟩ := exists_replayed ha.sound hds hroom₁ t.accept
      cases hrest.replay.symm.trans hr
      have hcovers := ha.covers.extends hrest.extends_
      simp only [replay, commit_covered hp (hcheck.trans hok) hcovers]
      exact ih ha.sound hds hroom₁ hselfs hss hr

end Ledger

end TxRecovery
