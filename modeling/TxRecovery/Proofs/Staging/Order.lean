import TxRecovery.Proofs.Staging.Trusted

/-!
# The staged order satisfies the commit path

`Staging.Coherent rows l`: the payloads staged in `rows` and stored in `l` agree on privacy modes, within
a transaction and along its dependencies. Then each payload in the commit order of a staging pass
`Follows` those before it (`Coherent.follows`): what it affects has a smaller stage, so it was committed
before, in the same mode. So a synchronisation refuses nothing.
-/

namespace TxRecovery

/-- Where an element of a flattened list comes from. -/
theorem flatMap_eq_append_cons {α β : Type} {f : α → List β} {xs : List α} {done rest : List β} {b : β}
    (h : xs.flatMap f = done ++ b :: rest) :
    ∃ pre x post, xs = pre ++ x :: post ∧ b ∈ f x ∧ ∀ y ∈ pre, ∀ a ∈ f y, a ∈ done := by
  induction xs generalizing done with
  | nil =>
    have := congrArg List.length h
    simp at this
  | cons x xs ih =>
    rw [List.flatMap_cons, List.append_eq_append_iff] at h
    rcases h with ⟨us, hdone, hxs⟩ | ⟨us, hx, hrest⟩
    · obtain ⟨pre, y, post, rfl, hb, hpre⟩ := ih hxs
      refine ⟨x :: pre, y, post, rfl, hb, List.forall_mem_cons.2 ⟨fun a ha => ?_, fun z hz a ha => ?_⟩⟩
      · rw [hdone]
        exact List.mem_append_left _ ha
      · rw [hdone]
        exact List.mem_append_right _ (hpre z hz a ha)
    · cases us with
      | nil =>
        obtain ⟨pre, y, post, rfl, hb, hpre⟩ := ih (show xs.flatMap f = [] ++ b :: rest from hrest.symm)
        refine ⟨x :: pre, y, post, rfl, hb, List.forall_mem_cons.2 ⟨fun a ha => ?_, fun z hz a ha => ?_⟩⟩
        · rwa [hx, List.append_nil] at ha
        · exact absurd (hpre z hz a ha) List.not_mem_nil
      | cons u us =>
        cases hrest
        exact ⟨[], x, xs, rfl, hx ▸ List.mem_append_right _ List.mem_cons_self, nofun⟩

namespace Staging

/-- What is staged and stored agrees on privacy modes, and no payload affects its own transaction. -/
structure Coherent (rows : List Row) (l : Ledger) : Prop where
  mode : ∀ row ∈ rows, ∀ v ∈ row.versions.values, ∀ w ∈ row.versions.values, w.mode = v.mode
  stored : ∀ row ∈ rows, ∀ v ∈ row.versions.values, ∀ s, l.payload? row.hash = .ok (some s) → s.mode = v.mode
  affected : ∀ row ∈ rows, ∀ v ∈ row.versions.values, ∀ r ∈ rows, r.hash ∈ v.affected.keys →
    ∀ w ∈ r.versions.values, w.mode = v.mode
  affectedStored : ∀ row ∈ rows, ∀ v ∈ row.versions.values, ∀ a ∈ v.affected.keys, ∀ s,
    l.payload? a = .ok (some s) → s.mode = v.mode
  execHash : ∀ row ∈ rows, ∀ v ∈ row.versions.values, v.mode = .stateValidation →
    ∀ p, Payload.decode v.raw = .ok p → p.execHash ≠ []
  acyclic : ∀ row ∈ rows, ∀ v ∈ row.versions.values, row.hash ∉ v.affected.keys

variable {c : Contents} {l : Ledger} {row : Row} {v : Version} {h : TxHash} {n : Nat}

instance (rows : List Row) (l : Ledger) : Decidable (Coherent rows l) :=
  decidable_of_iff (∀ row ∈ rows, ∀ v ∈ row.versions.values,
      (∀ w ∈ row.versions.values, w.mode = v.mode) ∧
      (∀ s ∈ (l.payload? row.hash).toOption.join, s.mode = v.mode) ∧
      (∀ r ∈ rows, r.hash ∈ v.affected.keys → ∀ w ∈ r.versions.values, w.mode = v.mode) ∧
      (∀ a ∈ v.affected.keys, ∀ s ∈ (l.payload? a).toOption.join, s.mode = v.mode) ∧
      (v.mode = .stateValidation → ∀ p ∈ (Payload.decode v.raw).toOption, p.execHash ≠ []) ∧
      row.hash ∉ v.affected.keys) <| by
    simp only [mem_toOption, mem_join_toOption]
    constructor
    · intro h
      exact ⟨fun row hr v hv => (h row hr v hv).1, fun row hr v hv => (h row hr v hv).2.1,
        fun row hr v hv => (h row hr v hv).2.2.1, fun row hr v hv => (h row hr v hv).2.2.2.1,
        fun row hr v hv => (h row hr v hv).2.2.2.2.1, fun row hr v hv => (h row hr v hv).2.2.2.2.2⟩
    · intro h row hr v hv
      exact ⟨h.mode row hr v hv, h.stored row hr v hv, h.affected row hr v hv, h.affectedStored row hr v hv,
        h.execHash row hr v hv, h.acyclic row hr v hv⟩

namespace Contents

theorem exists_before (hc : c.Keyed) {xs ys : List Row}
    (ho : c.restage.ordered = xs ++ row.restage (stages c.values) :: ys) (hd : h ∈ row.dependencies) :
    ∃ r ∈ c.values, r.hash = h ∧ r.restage (stages c.values) ∈ xs := by
  have htrusted : c.restage.Trusted [] := trusted_restage hc
  rcases htrusted.before hc.restage ho hd with ⟨r, hr', rfl⟩ | ⟨raw, hraw, -⟩
  · have hmem : r ∈ c.restage.ordered := ho ▸ List.mem_append_left _ hr'
    obtain ⟨r, hrow, rfl⟩ := exists_of_mem_restage (mem_ordered.1 hmem).1
    exact ⟨r, hrow, rfl, hr'⟩
  · exact absurd hraw List.not_mem_nil

end Contents

theorem Coherent.follows (hco : Coherent c.values l) (hc : c.Faithful) {done rest : List Bytes} {raw : Bytes}
    {p : Payload} (hq : c.restage.queue = done ++ raw :: rest) (hp : Payload.decode raw = .ok p) :
    l.Follows done p := by
  obtain ⟨xs, r, ys, ho, hraw, hdone⟩ := flatMap_eq_append_cons hq
  have hmem : r ∈ c.restage.ordered := ho ▸ by simp
  obtain ⟨row, hrow, rfl⟩ := Contents.exists_of_mem_restage (Contents.mem_ordered.1 hmem).1
  obtain ⟨v, hv, rfl⟩ := List.mem_map.1 hraw
  obtain ⟨k, p', hview⟩ := (hc.row row hrow).of_mem_values hv
  cases hview.decode.symm.trans hp
  -- a payload that is committed at all belongs to some row of the area
  have hcommitted : ∀ raw' ∈ done, ∀ q, Payload.decode raw' = .ok q →
      ∃ r ∈ c.values, ∃ w ∈ r.versions.values, r.hash = q.hash ∧ w.mode = q.mode := by
    intro raw' hraw' q hq'
    obtain ⟨r, hr, -, hr'⟩ := Contents.mem_queue.1 (hq ▸ List.mem_append_left _ hraw')
    obtain ⟨r, hrr, rfl⟩ := Contents.exists_of_mem_restage hr
    obtain ⟨w, hw, rfl⟩ := List.mem_map.1 hr'
    obtain ⟨k', q', hview'⟩ := (hc.row r hrr).of_mem_values hw
    cases hview'.decode.symm.trans hq'
    exact ⟨r, hrr, w, hw, hview'.hash.symm, hview'.mode⟩
  refine ⟨fun hm => hco.execHash row hrow v hv (hview.mode.trans hm) p hp, fun _ a ha => ?_,
    fun a ha => ⟨fun s hs => ?_, fun raw' hraw' q hq' hqa => ?_⟩⟩
  · rw [← hview.affected] at ha
    have hd : a ∈ row.dependencies :=
      Row.mem_dependencies.2 ⟨⟨v, hv, ha⟩, fun he => hco.acyclic row hrow v hv (he ▸ ha)⟩
    obtain ⟨r, hr, rfl, hbefore⟩ := Contents.exists_before hc.keyed ho hd
    obtain ⟨w, hw⟩ := (hc.row r hr).exists_version
    obtain ⟨k', q, hview'⟩ := (hc.row r hr).of_mem_values hw
    exact .inr ⟨w.raw, hdone _ hbefore _ (List.mem_map_of_mem hw), q, hview'.decode, hview'.hash⟩
  · rw [← hview.mode]
    rcases ha with rfl | ha
    · exact hco.stored row hrow v hv s (hview.hash ▸ hs)
    · exact hco.affectedStored row hrow v hv a (hview.affected ▸ ha) s hs
  · obtain ⟨r, hr, w, hw, hh, hm⟩ := hcommitted raw' hraw' q hq'
    rw [← hview.mode, ← hm]
    rcases ha with rfl | ha
    · cases hc.keyed.injective hr hrow (hh.trans (hqa.trans hview.hash))
      exact hco.mode row hrow v hv w hw
    · exact hco.affected row hrow v hv r hr (by rw [hh, hqa, hview.affected]; exact ha) w hw

end Staging

end TxRecovery
