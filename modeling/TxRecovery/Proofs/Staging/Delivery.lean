import TxRecovery.Proofs.Payload.History
import TxRecovery.Proofs.Staging.Order

/-!
# A history in the staging area

`Contents.Of P`: the area has one row for each payload with `P`, with that payload alone. If the payloads are
a history, then a staging pass stages every row (`Of.stageable`), what is staged is coherent with an empty
ledger (`Of.coherent`), and the queue to commit has every payload once (`Of.mem_queue`, `Of.new`).
-/

namespace TxRecovery

namespace Staging

namespace Row

variable {q : Payload} {a : TxHash}

/-- The row of a transaction of which one payload was pushed. -/
def ofPayload (q : Payload) : Row := (Row.empty q.hash).merge (.ofPayload q) (.ofPayload q.encode q)

@[simp] theorem hash_ofPayload (q : Payload) : (ofPayload q).hash = q.hash := rfl

@[simp] theorem values_ofPayload (q : Payload) :
    (ofPayload q).versions.values = [.ofPayload q.encode q] := rfl

@[simp] theorem raws_ofPayload (q : Payload) : (ofPayload q).raws = [q.encode] := rfl

theorem rawBytes_ofPayload (q : Payload) : (ofPayload q).rawBytes = q.encode.length := by
  simp [rawBytes]

theorem faithful_ofPayload (hq : q.Fits) : (ofPayload q).Faithful :=
  faithful_merge (Payload.decode_encode hq) rfl nofun

theorem fits_ofPayload (hq : q.Fits) (hlen : q.encode.length < UInt64.size) : (ofPayload q).Fits := by
  refine (faithful_ofPayload hq).fits (by decide : 1 < UInt64.size) (fun v hv => ?_) nofun nofun
  rw [values_ofPayload, List.mem_singleton] at hv
  rw [hv]
  exact hlen

theorem mem_dependencies_ofPayload :
    a ∈ (ofPayload q).dependencies ↔ a ∈ q.affected.keys ∧ a ≠ q.hash := by
  rw [mem_dependencies, values_ofPayload, hash_ofPayload]
  simp only [List.mem_singleton, exists_eq_left]
  exact Iff.rfl

end Row

namespace Contents

variable {c : Contents} {P : Payload → Prop} {q : Payload} {row : Row} {raw : Bytes}

def Of (c : Contents) (P : Payload → Prop) : Prop := ∀ row, row ∈ c.values ↔ ∃ q, P q ∧ row = .ofPayload q

namespace Of

/-! ### Staging -/

theorem dependsOn (hc : c.Of P) {d h : TxHash} (hd : DependsOn c.values d h) : Affects P d h := by
  obtain ⟨row, hrow, rfl, hdep⟩ := hd
  obtain ⟨q, hq, rfl⟩ := (hc row).1 hrow
  exact ⟨q, hq, rfl, (Row.mem_dependencies_ofPayload.1 hdep).1⟩

theorem allStaged (hc : c.Of P) (hP : History P) : c.restage.AllStaged := by
  intro row hr
  obtain ⟨r, hrow, rfl⟩ := exists_of_mem_restage hr
  have hclosed : ∀ row ∈ c.values, ∀ d ∈ row.dependencies, ∃ r ∈ c.values, r.hash = d := by
    intro row hrow d hd
    obtain ⟨q, hq, rfl⟩ := (hc row).1 hrow
    obtain ⟨q', hq', rfl⟩ := hP.closed q hq d (Row.mem_dependencies_ofPayload.1 hd).1
    exact ⟨_, (hc _).2 ⟨q', hq', rfl⟩, rfl⟩
  have hsub : DependsOn c.values ≤ Affects P := fun _ _ hd => hc.dependsOn hd
  have hacyclic : ∀ h, ¬ Relation.TransGen (DependsOn c.values) h h := fun h hcycle =>
    hP.acyclic h (Relation.TransGen.mono hsub h h hcycle)
  exact Option.isSome_iff_exists.2 (mem_stages_of_acyclic hclosed hacyclic hrow)

theorem stageable (hc : c.Of P) (hP : History P) : c.stageable = c.size := by
  rw [Contents.stageable, allStaged_iff.1 (hc.allStaged hP), c.size_restage]

theorem size_pos (hc : c.Of P) (hP : History P) : 0 < c.size := by
  obtain ⟨q, hq⟩ := hP.exists_mem
  have hlen := List.length_pos_of_mem ((hc _).2 ⟨q, hq, rfl⟩)
  rwa [SortedMap.values, List.length_map] at hlen

/-! ### Committing -/

/-- A history agrees with itself, and an empty ledger has nothing to disagree with. -/
theorem coherent (hc : c.Of P) (hP : History P) (hfits : ∀ q, P q → q.Fits) :
    Coherent c.values .empty := by
  have hnone : ∀ h, Ledger.empty.payload? h = .ok none := fun h =>
    Ledger.payload?_of_find?_none (Ledger.find?_of_get?_none rfl)
  have hstored : ∀ h s, Ledger.empty.payload? h ≠ .ok (some s) := fun h s hs =>
    nomatch (hnone h).symm.trans hs
  have hversion : ∀ row ∈ c.values, ∀ v ∈ row.versions.values,
      ∃ q, P q ∧ row.hash = q.hash ∧ row = .ofPayload q ∧ v = .ofPayload q.encode q := by
    intro row hrow v hv
    obtain ⟨q, hq, rfl⟩ := (hc row).1 hrow
    exact ⟨q, hq, rfl, rfl, List.mem_singleton.1 hv⟩
  refine ⟨fun row hr v hv w hw => ?_, fun row hr v hv s hs => absurd hs (hstored _ s),
    fun row hr v hv r hr' ha w hw => ?_, fun row hr v hv a ha s hs => absurd hs (hstored _ s),
    fun row hr v hv hm p hp => ?_, fun row hr v hv => ?_⟩
  · obtain ⟨q, -, -, rfl, rfl⟩ := hversion row hr v hv
    rw [List.mem_singleton.1 hw]
  · obtain ⟨q, hq, -, -, rfl⟩ := hversion row hr v hv
    obtain ⟨q', hq', hh, -, rfl⟩ := hversion r hr' w hw
    rw [hh] at ha
    exact hP.mode q hq q' hq' ha
  · obtain ⟨q, hq, -, -, rfl⟩ := hversion row hr v hv
    cases (Payload.decode_encode (hfits q hq)).symm.trans hp
    exact hP.execHash p hq hm
  · obtain ⟨q, hq, hh, -, rfl⟩ := hversion row hr v hv
    rw [hh]
    exact hP.hash_not_mem hq

theorem exists_of_mem_restage (hc : c.Of P) (hr : row ∈ c.restage.values) :
    ∃ q, P q ∧ row.hash = q.hash ∧ row.raws = [q.encode] := by
  obtain ⟨r, hrow, rfl⟩ := Contents.exists_of_mem_restage hr
  obtain ⟨q, hq, rfl⟩ := (hc r).1 hrow
  exact ⟨q, hq, rfl, rfl⟩

theorem mem_queue (hc : c.Of P) (hP : History P) : raw ∈ c.restage.queue ↔ ∃ q, P q ∧ raw = q.encode := by
  rw [Contents.mem_queue]
  constructor
  · rintro ⟨row, hrow, -, hraw⟩
    obtain ⟨q, hq, -, hraws⟩ := hc.exists_of_mem_restage hrow
    rw [hraws] at hraw
    exact ⟨q, hq, List.mem_singleton.1 hraw⟩
  · rintro ⟨q, hq, rfl⟩
    have hrow := mem_restage ((hc (.ofPayload q)).2 ⟨q, hq, rfl⟩)
    exact ⟨_, hrow, Option.isSome_iff_exists.1 (hc.allStaged hP _ hrow), List.mem_singleton_self _⟩

theorem new (hc : c.Of P) (hkeyed : c.Keyed) (hfits : ∀ q, P q → q.Fits) :
    Ledger.empty.New c.restage.queue := by
  have hpair : c.restage.ordered.Pairwise fun r r' => r.hash ≠ r'.hash :=
    (c.restage.ordered_perm.pairwise_iff fun h => h.symm).2 (hkeyed.restage.pairwise_hash_ne.filter _)
  have hmem : ∀ r ∈ c.restage.ordered, r ∈ c.restage.values := fun r hr => (mem_ordered.1 hr).1
  refine ⟨fun _ _ _ _ => rfl, ?_⟩
  rw [queue, List.pairwise_flatMap]
  refine ⟨fun r hr => ?_, hpair.imp_of_mem fun {r r'} hr hr' hne raw hraw raw' hraw' p p' hp hp' => ?_⟩
  · obtain ⟨q, -, -, hraws⟩ := hc.exists_of_mem_restage (hmem r hr)
    rw [hraws]
    exact List.pairwise_singleton _ _
  · obtain ⟨q, hq, hh, hraws⟩ := hc.exists_of_mem_restage (hmem r hr)
    obtain ⟨q', hq', hh', hraws'⟩ := hc.exists_of_mem_restage (hmem r' hr')
    rw [hraws, List.mem_singleton] at hraw
    rw [hraws', List.mem_singleton] at hraw'
    rw [hraw, Payload.decode_encode (hfits q hq)] at hp
    rw [hraw', Payload.decode_encode (hfits q' hq')] at hp'
    cases hp
    cases hp'
    rwa [hh, hh'] at hne

end Of

def ofPayloads (qs : List Payload) : Contents := .ofList (qs.map fun q => (q.hash, .ofPayload q))

theorem of_ofPayloads {qs : List Payload} (hne : qs.Pairwise fun q r => q.hash ≠ r.hash) :
    (ofPayloads qs).Of (· ∈ qs) := by
  have hpair : (qs.map fun q => (q.hash, Row.ofPayload q)).Pairwise fun e d => e.1 ≠ d.1 :=
    List.pairwise_map.2 hne
  intro row
  rw [SortedMap.mem_values_iff]
  simp only [ofPayloads, SortedMap.get?_ofList_iff hpair, List.mem_map, Prod.mk.injEq]
  constructor
  · rintro ⟨h, q, hq, rfl, rfl⟩
    exact ⟨q, hq, rfl⟩
  · rintro ⟨q, hq, rfl⟩
    exact ⟨q.hash, q, hq, rfl, rfl⟩

end Contents

end Staging

end TxRecovery
