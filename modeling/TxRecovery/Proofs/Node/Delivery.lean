import TxRecovery.Proofs.Ledger.Rows
import TxRecovery.Proofs.Node.CommitOrder
import TxRecovery.Proofs.Staging.Delivery

/-!
# A node that takes in a history

A node over empty stores that is pushed a history, in whatever order, stages all of it, commits all of it,
and ends with a row for each payload, as it was pushed (`exists_recovered`).
-/

namespace TxRecovery

namespace Node

open Staging (Contents Row)

variable {n m : Node} {c : Contents} {qs : List Payload} {P : Payload → Prop}

theorem forM_push (batches : List (List Bytes)) : batches.forM push = push batches.flatten := by
  induction batches with
  | nil => rfl
  | cons raws batches ih =>
    have hcons : (raws :: batches).forM push = push raws >>= fun _ => batches.forM push := rfl
    have happend : push (raws ++ batches.flatten) = push raws >>= fun _ => push batches.flatten := List.forM_append
    rw [hcons, ih, List.flatten_cons, happend]

/-- The payload fits in a row of its own. -/
structure Storable (q : Payload) : Prop where
  fits : q.Fits
  length : q.encode.length < addressable

theorem Sound.put_new {q : Payload} (hn : n.Sound c) (hq : Storable q) (hnew : c.get? q.hash = none)
    (hsize : c.size + 1 < addressable) :
    ∃ area, (backend.stagePayload q.encode).eval n = (.ok (), { n with area }) ∧
      ({ n with area } : Node).Sound (c.insert q.hash (.ofPayload q)) := by
  have hp := Payload.decode_encode hq.fits
  have hmerged : c.merged q.encode q = .ofPayload q := by
    rw [Contents.merged, hnew]
    rfl
  have heval := eval_stagePayload hn.holds hp
  have hput := hn.area_sound.put_merged hp
  rw [hmerged] at heval hput
  refine ⟨_, heval, hn.of_area (hput (Row.fits_ofPayload hq.fits (lt_size_of_lt_addressable hq.length)) ?_ ?_)
    n.metrics⟩
  · rw [Row.rawBytes_ofPayload]
    exact hq.length
  · exact Nat.lt_of_le_of_lt (SortedMap.length_insertEntry_le _ _ _) hsize

theorem Sound.push_new (hn : n.Sound c) (hqs : ∀ q ∈ qs, Storable q) (hnew : ∀ q ∈ qs, c.get? q.hash = none)
    (hne : qs.Pairwise fun q r => q.hash ≠ r.hash) (hsize : c.size + qs.length < addressable) :
    ∃ area, (Node.push (qs.map Payload.encode)).eval n = (.ok (), { n with area }) ∧
      ({ n with area } : Node).Sound (qs.foldl (fun c q => c.insert q.hash (.ofPayload q)) c) := by
  induction qs generalizing n c with
  | nil => exact ⟨n.area, rfl, hn⟩
  | cons q qs ih =>
    obtain ⟨hq, hqs⟩ := List.forall_mem_cons.1 hqs
    obtain ⟨hnew, hnews⟩ := List.forall_mem_cons.1 hnew
    obtain ⟨hhead, hne⟩ := List.pairwise_cons.1 hne
    rw [List.length_cons] at hsize
    obtain ⟨area, heval, hsound⟩ := hn.put_new hq hnew (by omega)
    have hrest : ∀ r ∈ qs, (c.insert q.hash (.ofPayload q)).get? r.hash = none := fun r hr => by
      rw [SortedMap.get?_insert_of_ne _ (hhead r hr).symm]
      exact hnews r hr
    have hlen : (c.insert q.hash (.ofPayload q)).size ≤ c.size + 1 := SortedMap.length_insertEntry_le _ _ _
    obtain ⟨area', heval', hsound'⟩ := ih hsound hqs hrest hne (by omega)
    refine ⟨area', ?_, hsound'⟩
    rw [List.map_cons, push_cons, Op.eval_bind_ok heval, heval']

theorem Sound.eval_stage_of_history (hn : n.Sound c) (hc : c.Of P) (hP : History P) :
    ∃ area metrics, Node.stage.eval n = (.ok .success, { n with area, metrics }) ∧ area.Holds c.restage := by
  obtain ⟨area, metrics, hstage, hholds⟩ := eval_stage hn
  have hpos : c.size ≠ 0 := Nat.pos_iff_ne_zero.1 (hc.size_pos hP)
  rw [hc.stageable hP, Outcome.ofStaging, if_neg hpos, if_pos rfl] at hstage
  exact ⟨area, metrics, hstage, hholds⟩

/-- Over an empty ledger a history is committed as it is. -/
theorem Sound.replayed_of_history (hn : n.Sound c) (hledger : n.ledger = .empty) (hc : c.Of P)
    (hP : History P) (hfits : ∀ q, P q → q.Fits) :
    ∃ t l, n.ledger.Replayed .zero c.restage.queue t l ∧ t.outcome = .success ∧
      ∀ k v, l.tree.get? k = some v ↔
        ∃ q, P q ∧ k = q.hash.bytes ∧ v = StoredTx.format.write ⟨q.hash, q.encode⟩ := by
  have hco : Staging.Coherent c.values n.ledger := hledger ▸ hc.coherent hP hfits
  obtain ⟨t, l, hr, hv⟩ := hn.exists_replayed_of_coherent hco
  refine ⟨t, l, hr, ?_, fun k v => ?_⟩
  · obtain ⟨q, hq⟩ := hP.exists_mem
    have hqueue := List.length_pos_of_mem ((hc.mem_queue hP).2 ⟨q, hq, rfl⟩)
    have hattempted : t.attempted = 0 + c.restage.queue.length := hr.attempted
    rw [Tally.outcome, Outcome.ofSync, if_pos ⟨hv, by omega⟩]
  · have hnew : n.ledger.New c.restage.queue := hledger ▸ hc.new hn.faithful.keyed hfits
    have hnone : n.ledger.tree.get? k = none := by
      rw [hledger]
      rfl
    rw [Ledger.get?_of_replay hnew hr.replay hv, hnone]
    constructor
    · rintro (h | ⟨raw, hraw, p, hp, rfl, rfl⟩)
      · exact absurd h (Option.some_ne_none v).symm
      · obtain ⟨q, hq, rfl⟩ := (hc.mem_queue hP).1 hraw
        cases (Payload.decode_encode (hfits q hq)).symm.trans hp
        exact ⟨p, hq, rfl, rfl⟩
    · rintro ⟨q, hq, rfl, rfl⟩
      exact .inr ⟨_, (hc.mem_queue hP).2 ⟨q, hq, rfl⟩, q, Payload.decode_encode (hfits q hq), rfl, rfl⟩

theorem sound_of_empty (hledger : m.ledger = .empty) (harea : m.area = .empty) : m.Sound .empty :=
  ⟨harea ▸ Staging.Area.holds_empty, Contents.faithful_empty, hledger ▸ Ledger.sound_empty,
    hledger ▸ fitsInMemory_empty, by decide, nofun⟩

/-- Besides its stores only the node's metrics change. -/
theorem exists_recovered (hledger : m.ledger = .empty) (harea : m.area = .empty) (hh : History (· ∈ qs))
    (hqs : ∀ q ∈ qs, Storable q) (hne : qs.Pairwise fun q r => q.hash ≠ r.hash)
    (hsize : qs.length < addressable) :
    ∃ n₁ n₂ t area metrics, (push (qs.map Payload.encode)).eval m = (.ok (), n₁) ∧
      stage.eval n₁ = (.ok .success, n₂) ∧
      sync.eval n₂ = (.ok t, { m with ledger := .ofPayloads qs, area, metrics }) ∧ t.outcome = .success := by
  have hroom : (SortedMap.empty : Contents).size + qs.length < addressable := by
    rwa [show (SortedMap.empty : Contents).size = 0 from rfl, Nat.zero_add]
  obtain ⟨area₁, hpush, hn₁⟩ := (sound_of_empty hledger harea).push_new hqs (fun _ _ => rfl) hne hroom
  have hcontents : qs.foldl (fun c q => c.insert q.hash (.ofPayload q)) .empty = Contents.ofPayloads qs := by
    rw [Contents.ofPayloads, SortedMap.ofList, List.foldl_map]
  rw [hcontents] at hn₁
  have hc := Contents.of_ofPayloads hne
  obtain ⟨area₂, metrics, hstage, hholds⟩ := hn₁.eval_stage_of_history hc hh
  obtain ⟨t, l, hr, ht, hl⟩ := hn₁.replayed_of_history hledger hc hh fun q hq => (hqs q hq).fits
  obtain ⟨metrics', hsync⟩ := eval_sync_of_replayed (hn₁.restage hholds metrics).holds hr
  have hstored : l = .ofPayloads qs := Ledger.ext_get? fun k v => by rw [hl, Ledger.get?_ofPayloads hne]
  subst hstored
  exact ⟨_, _, t, _, _, hpush, hstage, hsync, ht⟩

theorem eval_recovery (hledger : m.ledger = .empty) (harea : m.area = .empty) (hh : History (· ∈ qs))
    (hqs : ∀ q ∈ qs, Storable q) (hne : qs.Pairwise fun q r => q.hash ≠ r.hash)
    (hsize : qs.length < addressable) :
    ∃ n₁ n₂ t n₃, (push (qs.map Payload.encode)).eval m = (.ok (), n₁) ∧
      stage.eval n₁ = (.ok .success, n₂) ∧ sync.eval n₂ = (.ok t, n₃) ∧ t.outcome = .success ∧
      n₃.ledger = .ofPayloads qs := by
  obtain ⟨n₁, n₂, t, area, metrics, hpush, hstage, hsync, ht⟩ := exists_recovered hledger harea hh hqs hne hsize
  exact ⟨n₁, n₂, t, _, hpush, hstage, hsync, ht, rfl⟩

end Node

end TxRecovery
