import TxRecovery.Proofs.Ledger.Dependencies

/-!
# What is accepted

In a ledger that reads back the commit of a payload has two outcomes (`commit_verdict`). A payload that `Passes` the
checks is accepted (`accepts_iff`), and any other is refused on grounds of privacy (`refuses_iff`). Whether it may
affect itself depends on its own row (`mayAffect_self`).
-/

namespace TxRecovery

namespace Ledger

variable {l l' : Ledger} {raw : Bytes} {p : Payload} {a : TxHash} {m : PrivacyMode}

theorem passes_iff (hl : l.Sound) : l.Passes p ↔
    l.checkPrivacy p = .ok () ∧ ∀ s, l.payload? p.hash = .ok (some s) → s.mode = p.mode := by
  rw [checkPrivacy_eq_ok hl]
  exact ⟨fun h => ⟨⟨h.execHash, h.affected⟩, h.stored⟩, fun h => ⟨h.1.1, h.1.2, h.2⟩⟩

theorem commit_verdict (hl : l.Sound) (hp : Payload.decode raw = .ok p) :
    (l.Passes p ∧ ∃ l', l.commit raw = .ok (p.hash, l')) ∨
      ¬ l.Passes p ∧ ∃ v, l.commit raw = .error (.privacy v) := by
  rw [passes_iff hl]
  rcases checkPrivacy_cases hl p with hc | ⟨e, hc, v, rfl⟩
  · rcases hl.payload?_cases p.hash with hs | ⟨s, hs⟩
    · exact .inl ⟨⟨hc, fun s hs' => (nomatch hs.symm.trans hs')⟩, _, commit_of_none hp hc hs⟩
    · by_cases hm : s.mode = p.mode
      · refine .inl ⟨⟨hc, fun s' hs' => ?_⟩, _, commit_of_some hp hc hs hm⟩
        cases hs.symm.trans hs'
        exact hm
      · exact .inr ⟨fun h => hm (h.2 s hs), _, commit_of_mode_ne hp hc hs hm⟩
  · exact .inr ⟨fun h => (nomatch hc.symm.trans h.1), v, commit_of_checkPrivacy hp hc⟩

/-- The commit is accepted. -/
def Accepts (l : Ledger) (raw : Bytes) : Prop := ∃ h l', l.commit raw = .ok (h, l')

/-- The commit is refused on grounds of privacy. -/
def Refuses (l : Ledger) (raw : Bytes) : Prop := ∃ v, l.commit raw = .error (.privacy v)

instance (l : Ledger) (raw : Bytes) : Decidable (l.Accepts raw) :=
  decidable_of_iff ((l.commit raw).isOk = true) <| by
    unfold Accepts
    rcases l.commit raw with e | ⟨h, l'⟩
    · exact ⟨nofun, nofun⟩
    · exact ⟨fun _ => ⟨h, l', rfl⟩, fun _ => rfl⟩

theorem accepts_iff (hl : l.Sound) (hp : Payload.decode raw = .ok p) : l.Accepts raw ↔ l.Passes p := by
  rcases commit_verdict hl hp with ⟨hpass, l', hc⟩ | ⟨hpass, v, hc⟩
  · exact ⟨fun _ => hpass, fun _ => ⟨p.hash, l', hc⟩⟩
  · exact ⟨fun ⟨_, _, hok⟩ => (nomatch hc.symm.trans hok), fun h => absurd h hpass⟩

theorem refuses_iff (hl : l.Sound) (hp : Payload.decode raw = .ok p) : l.Refuses raw ↔ ¬ l.Passes p := by
  rcases commit_verdict hl hp with ⟨hpass, l', hc⟩ | ⟨hpass, v, hc⟩
  · exact ⟨fun ⟨_, hv⟩ => (nomatch hc.symm.trans hv), fun h => absurd hpass h⟩
  · exact ⟨fun _ => hpass, fun _ => ⟨v, hc⟩⟩

theorem mayAffect_congr (h : l'.payload? a = l.payload? a) : l'.MayAffect m a ↔ l.MayAffect m a := by
  unfold MayAffect
  rw [h]

/-- A transaction that may be stored in its mode may affect itself if it is standard private, or stored already. -/
theorem mayAffect_self (hs : ∀ s, l.payload? a = .ok (some s) → s.mode = m) :
    l.MayAffect m a ↔ m = .standard ∨ ∃ s, l.payload? a = .ok (some s) := by
  by_cases hm : m = .standard
  · subst hm
    exact ⟨fun _ => .inl rfl, fun _ => mayAffect_standard.2 hs⟩
  · rw [mayAffect_of_ne hm]
    exact ⟨fun ⟨s, hstored, _⟩ => .inr ⟨s, hstored⟩,
      fun h => (h.resolve_left hm).imp fun s hstored => ⟨hstored, hs s hstored⟩⟩

end Ledger

end TxRecovery
