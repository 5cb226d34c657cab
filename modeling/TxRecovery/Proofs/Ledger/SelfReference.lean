import TxRecovery.Proofs.Ledger.Verdict
import TxRecovery.Proofs.Staging.Row

/-!
# Payloads that affect themselves

`Payload.withoutSelf`: the payload without its own transaction among those that it affects. In the staging area the two
are alike (`Staging.Row.dependencies_merge_withoutSelf`). In the ledger they are not (`Ledger.self_reference_refused`).
The checks of a commit read every affected row, the payload's own among them, before that is written, so that a payload
which is not standard private and affects itself is refused as long as it is not stored, whatever else it affects
(`Ledger.accepts_withoutSelf`). So none is ever stored in that form (`Ledger.selfFree_ofCommits`).
-/

namespace TxRecovery

namespace Payload

/-- The payload, its own transaction left out of those that it affects. -/
def withoutSelf (p : Payload) : Payload := { p with affected := p.affected.erase p.hash }

theorem mem_affected_withoutSelf {p : Payload} {a : TxHash} :
    a ∈ p.withoutSelf.affected.keys ↔ a ∈ p.affected.keys ∧ a ≠ p.hash :=
  SortedMap.mem_keys_erase

theorem Fits.withoutSelf {p : Payload} (h : p.Fits) : p.withoutSelf.Fits :=
  { h with
    affected := ⟨Nat.lt_of_le_of_lt (SortedMap.size_erase_le _ _) h.affected.1,
      fun e he => h.affected.2 e (List.mem_filter.1 he).1⟩ }

end Payload

namespace Staging.Row

variable {row : Row} {p : Payload}

theorem mem_values_merge {k : ViewKey} {v w : Version} :
    w ∈ (row.merge k v).versions.values ↔ w = v ∨ ∃ k', k' ≠ k ∧ row.versions.get? k' = some w := by
  rw [merge, SortedMap.mem_values_iff]
  constructor
  · rintro ⟨k', hk'⟩
    rw [SortedMap.get?_insert] at hk'
    split at hk'
    · exact .inl (Option.some.inj hk').symm
    · exact .inr ⟨k', ‹_›, hk'⟩
  · rintro (rfl | ⟨k', hne, hk'⟩)
    · exact ⟨k, SortedMap.get?_insert_self _ _ _⟩
    · exact ⟨k', (SortedMap.get?_insert_of_ne _ hne _).trans hk'⟩

/-- The row of a transaction depends on the same ones with either. -/
theorem dependencies_merge_withoutSelf (hrow : row.hash = p.hash) (raw raw' : Bytes) :
    (row.merge (.ofPayload p.withoutSelf) (.ofPayload raw' p.withoutSelf)).dependencies =
      (row.merge (.ofPayload p) (.ofPayload raw p)).dependencies := by
  refine SortedSet.ext_mem fun a => ?_
  have hhash : ∀ k v, (row.merge k v).hash = p.hash := fun _ _ => hrow
  simp only [mem_dependencies, mem_values_merge, hhash]
  refine and_congr_left fun hne => ?_
  simp only [or_and_right, exists_or, exists_eq_left]
  refine or_congr ?_ Iff.rfl
  exact Payload.mem_affected_withoutSelf.trans (and_iff_left hne)

end Staging.Row

namespace Ledger

variable {l l' : Ledger} {raw raw' : Bytes} {p : Payload}

/-- Leaving the payload itself out leaves one check out, which asks for what is to be written. -/
theorem passes_withoutSelf : l.Passes p ↔
    l.Passes p.withoutSelf ∧
      (p.mode = .standard ∨ p.hash ∉ p.affected.keys ∨ ∃ s, l.payload? p.hash = .ok (some s)) := by
  constructor
  · intro h
    refine ⟨⟨h.execHash, fun a ha => h.affected a (Payload.mem_affected_withoutSelf.1 ha).1, h.stored⟩, ?_⟩
    by_cases hself : p.hash ∈ p.affected.keys
    · exact ((mayAffect_self h.stored).1 (h.affected _ hself)).imp_right .inr
    · exact .inr (.inl hself)
  · rintro ⟨h, hself⟩
    refine ⟨h.execHash, fun a ha => ?_, h.stored⟩
    by_cases ha' : a = p.hash
    · subst ha'
      exact (mayAffect_self h.stored).2 (hself.imp_right fun h => h.resolve_left (not_not_intro ha))
    · exact h.affected a (Payload.mem_affected_withoutSelf.2 ⟨ha, ha'⟩)

/-! ### What is stored -/

/-- No stored payload of another mode than standard private affects itself. -/
def SelfFree (l : Ledger) : Prop :=
  ∀ h s, l.payload? h = .ok (some s) → s.mode ≠ .standard → h ∉ s.affected.keys

theorem SelfFree.commit (hf : l.SelfFree) (hl : l.Sound) (hc : l.Committed raw p l') : l'.SelfFree := by
  intro h q hq hm ha
  rcases hc.payload?_cases hl hq with ⟨s, hs, hsq⟩ | ⟨hnone, rfl, rfl⟩
  · rw [hsq.mode] at hm
    rw [hsq.affected] at ha
    exact hf h s hs hm ha
  · -- the payload came first, so there was no row of its own to affect
    obtain ⟨s, hs, -⟩ := (mayAffect_of_ne hm).1 (hc.passes.affected _ ha)
    exact nomatch hnone.symm.trans hs

theorem selfFree_ofCommits {raws : List Bytes} (hfit : FitsThroughout raws) : (ofCommits raws).SelfFree :=
  (ofCommits_induct (P := fun _ l => l.SelfFree) nofun (fun _ _ _ hf => hf)
    (fun _ _ _ _ hl hf hc _ _ => hf.commit hl hc) hfit).2

/-! ### What is accepted -/

/-- A payload fares in the ledger as it would without affecting itself, but for one that is not standard private and
has not been stored yet: that one is refused. In the staging area there is no such difference. -/
theorem accepts_withoutSelf (hl : l.Sound) (hp : Payload.decode raw = .ok p) :
    Payload.decode p.withoutSelf.encode = .ok p.withoutSelf ∧
    ∀ raw', Payload.decode raw' = .ok p.withoutSelf →
      (l.Refuses raw ↔ ¬ l.Accepts raw) ∧ (l.Refuses raw' ↔ ¬ l.Accepts raw') ∧
      (l.Accepts raw' ↔ l.Passes p.withoutSelf) ∧
      (l.Accepts raw ↔ l.Accepts raw' ∧
        (p.mode = .standard ∨ p.hash ∉ p.affected.keys ∨ ∃ s, l.payload? p.hash = .ok (some s))) ∧
      ∀ row : Staging.Row, row.hash = p.hash →
        (row.merge (.ofPayload p.withoutSelf) (.ofPayload raw' p.withoutSelf)).dependencies =
          (row.merge (.ofPayload p) (.ofPayload raw p)).dependencies := by
  refine ⟨Payload.decode_encode (Payload.fits_of_decode hp).withoutSelf, fun raw' hp' => ?_⟩
  rw [accepts_iff hl hp, accepts_iff hl hp', refuses_iff hl hp, refuses_iff hl hp']
  exact ⟨Iff.rfl, Iff.rfl, Iff.rfl, passes_withoutSelf,
    fun row hrow => Staging.Row.dependencies_merge_withoutSelf hrow raw raw'⟩

/-- A payload with party protection that affects itself and nothing else. -/
def sampleSelf : Payload :=
  let base := (samplePair .partyProtection).1
  { base with mode := .partyProtection, affected := .ofList [(base.hash, ⟨[7]⟩)] }

theorem decode_sampleSelf : Payload.decode sampleSelf.encode = .ok sampleSelf ∧
    Payload.decode sampleSelf.withoutSelf.encode = .ok sampleSelf.withoutSelf := by
  decide +kernel

/-- It is refused as long as it has not been stored without affecting itself. -/
theorem accepts_withoutSelf_sample :
    (Ledger.empty.Refuses sampleSelf.encode ∧ Ledger.empty.Accepts sampleSelf.withoutSelf.encode) ∧
      (ofCommits [sampleSelf.withoutSelf.encode]).Accepts sampleSelf.encode := by
  obtain ⟨hp, hp'⟩ := decode_sampleSelf
  have hfirst : Ledger.empty.Accepts sampleSelf.withoutSelf.encode := by decide +kernel
  have hagain : (ofCommits [sampleSelf.withoutSelf.encode]).Accepts sampleSelf.withoutSelf.encode := by decide +kernel
  have hstored : (ofCommits [sampleSelf.withoutSelf.encode]).payload? sampleSelf.hash =
      .ok (some sampleSelf.withoutSelf) := by decide +kernel
  have hself : sampleSelf.hash ∈ sampleSelf.affected.keys := by decide +kernel
  have hfit : FitsThroughout [sampleSelf.withoutSelf.encode] := by decide +kernel
  refine ⟨⟨?_, hfirst⟩, ?_⟩
  · obtain ⟨hrefuses, -, -, haccepts, -⟩ := (accepts_withoutSelf sound_empty hp).2 _ hp'
    rw [hrefuses, haccepts]
    rintro ⟨-, hm | hother | ⟨s, hs⟩⟩
    · exact nomatch hm
    · exact hother hself
    · exact nomatch hs
  · obtain ⟨-, -, -, haccepts, -⟩ := (accepts_withoutSelf (sound_ofCommits hfit) hp).2 _ hp'
    exact haccepts.2 ⟨hagain, .inr (.inr ⟨_, hstored⟩)⟩

/-- So a payload that affects itself does not fare as it would otherwise. -/
theorem self_reference_refused : ¬ ∀ (l : Ledger) (raw raw' : Bytes) (p : Payload), l.Sound →
    Payload.decode raw = .ok p → Payload.decode raw' = .ok p.withoutSelf →
      (l.Accepts raw ↔ l.Accepts raw') ∧ (l.Refuses raw ↔ l.Refuses raw') := by
  intro hall
  have haccepted : Ledger.empty.Accepts sampleSelf.withoutSelf.encode := by decide +kernel
  have hrefused : ¬ Ledger.empty.Accepts sampleSelf.encode := by decide +kernel
  exact hrefused ((hall .empty _ _ _ sound_empty decode_sampleSelf.1 decode_sampleSelf.2).1.2 haccepted)

end Ledger

end TxRecovery
