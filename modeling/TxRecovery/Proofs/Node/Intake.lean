import TxRecovery.Proofs.Node.Evaluation

/-!
# Taking in payloads

`Area.Sound a c`: the area holds the rows `c`, every version of which is a payload of its row's transaction, and both
their number and the bytes of each row fit in memory. A pushed payload and a staging pass keep that as long as the
area fits (`Area.Sound.merge`, `Area.Sound.restage`), and neither touches another store of the node (`eval_push`,
`eval_stageThen`).
-/

namespace TxRecovery

namespace Staging.Area

variable {a a' : Area} {c : Contents} {row : Row} {h : TxHash} {raw : Bytes} {p : Payload}

structure Sound (a : Area) (c : Contents) : Prop where
  holds : a.Holds c
  faithful : c.Faithful
  size : c.size < addressable
  rawBytes : ∀ row ∈ c.values, row.rawBytes < addressable

theorem sound_empty : Area.empty.Sound .empty := ⟨holds_empty, Contents.faithful_empty, by decide, nofun⟩

/-- A row that is in memory fits in its binary form. -/
theorem fits_of_put (ha : FitsInMemory (a.put h.bytes row).tree) (hr : row.Faithful) (hs : row.stage = none)
    (hi : row.issues = none) : row.Fits ∧ row.rawBytes < addressable := by
  have hlen := Nat.lt_of_le_of_lt row.rawBytes_add_size_le
    (ha.length_lt (SortedMap.get?_insert_self a.tree h.bytes _))
  refine ⟨hr.fits (lt_size_of_lt_addressable (by omega)) (fun v hv => ?_) (fun m hm => ?_) fun s hm => ?_,
    by omega⟩
  · have := Row.length_raw_le_rawBytes hv
    exact lt_size_of_lt_addressable (by omega)
  · rw [hs] at hm
    exact nomatch hm
  · rw [hi] at hm
    exact nomatch hm

namespace Sound

theorem put_merged (ha : a.Sound c) (hp : Payload.decode raw = .ok p) (hrow : (c.merged raw p).Fits)
    (hbytes : (c.merged raw p).rawBytes < addressable)
    (hsize : (c.insert p.hash (c.merged raw p)).size < addressable) :
    (a.put p.hash.bytes (c.merged raw p)).Sound (c.insert p.hash (c.merged raw p)) := by
  refine ⟨ha.holds.put (ha.faithful.merged hp).1 hrow, ha.faithful.insert_merged hp, hsize, fun row hr => ?_⟩
  obtain ⟨h, hr⟩ := SortedMap.mem_values_iff.1 hr
  rw [SortedMap.get?_insert] at hr
  split at hr
  · cases hr
    exact hbytes
  · exact ha.rawBytes row (SortedMap.mem_values_iff.2 ⟨h, hr⟩)

theorem merge (ha : a.Sound c) (hp : Payload.decode raw = .ok p)
    (hfit : FitsInMemory (a.put p.hash.bytes (c.merged raw p)).tree) :
    (a.put p.hash.bytes (c.merged raw p)).Sound (c.insert p.hash (c.merged raw p)) := by
  obtain ⟨hh, hf⟩ := ha.faithful.merged hp
  obtain ⟨hrow, hbytes⟩ := fits_of_put hfit hf rfl rfl
  refine ha.put_merged hp hrow hbytes ?_
  rw [← (ha.holds.put hh hrow).size]
  exact hfit.size

theorem restage (ha : a.Sound c) (ha' : a'.Holds c.restage) : a'.Sound c.restage := by
  refine ⟨ha', ha.faithful.restage, c.size_restage ▸ ha.size, fun row hr => ?_⟩
  rw [Contents.values_restage] at hr
  obtain ⟨r, hmem, rfl⟩ := List.mem_map.1 hr
  exact ha.rawBytes r hmem

end Sound

end Staging.Area

namespace Node

open Staging (Area Contents)

variable {n : Node} {c : Contents}

theorem push_cons (raw : Bytes) (raws : List Bytes) :
    push (raw :: raws) = backend.stagePayload raw >>= fun _ => push raws := rfl

/-- What is so after each payload that is written is so after any part of the push. -/
theorem forall_take_of_trail {P : Node → Prop} {payloads : List Bytes}
    (h : ∀ m ∈ (List.range (payloads.length + 1)).map fun k => ((push (payloads.take k)).eval n).2, P m) (k : Nat) :
    P ((push (payloads.take k)).eval n).2 := by
  rcases Nat.le_total k payloads.length with hk | hk
  · exact h _ (List.mem_map.2 ⟨k, List.mem_range.2 (Nat.lt_succ_of_le hk), rfl⟩)
  · have hall := h _ (List.mem_map.2 ⟨_, List.mem_range.2 (Nat.lt_succ_self payloads.length), rfl⟩)
    rwa [List.take_of_length_le hk, ← List.take_of_length_le (Nat.le_refl payloads.length)]

/-- A push changes the area alone, whether it is answered or refused. -/
theorem eval_push (ha : n.area.Sound c) (raws : List Bytes)
    (hfit : ∀ k, FitsInMemory ((push (raws.take k)).eval n).2.area.tree) :
    ∃ area, ((push raws).eval n).2 = { n with area } ∧ area.Sound (c.push raws) := by
  induction raws generalizing n c with
  | nil => exact ⟨n.area, rfl, ha⟩
  | cons raw raws ih =>
    cases hp : Payload.decode raw with
    | error e =>
      rw [push_cons, Op.eval_bind_error (eval_stagePayload_error hp), Contents.push_cons_error hp]
      exact ⟨n.area, rfl, ha⟩
    | ok p =>
      have hsplit : ∀ raws, (push (raw :: raws)).eval n = (push raws).eval _ := fun raws => by
        rw [push_cons, Op.eval_bind_ok (eval_stagePayload ha.holds hp)]
      have hfirst : FitsInMemory ((push [raw]).eval n).2.area.tree := hfit 1
      rw [hsplit] at hfirst
      obtain ⟨area, heval, harea⟩ := ih (ha.merge hp hfirst) fun k => by
        rw [← hsplit]
        exact hfit (k + 1)
      rw [hsplit, Contents.push_cons_ok hp]
      exact ⟨area, heval, harea⟩

/-- A staging pass restages the rows; what arrives then comes to the node with these. -/
theorem eval_stageThen (ha : n.area.Sound c) {arrival : NodeOp Unit} {f : Node → Node}
    (harrival : ∀ m, arrival.eval m = (.ok (), f m)) :
    ∃ area, (backend.performStaging n.settings.stagingBatchSize).eval n =
        (.ok (.ofStaging c.size c.stageable), { n with area }) ∧ area.Sound c.restage ∧
      (stageThen arrival).eval n = (.ok (.ofStaging c.size c.stageable),
        (f { n with area }).count fun m => { m with stagingPasses := m.stagingPasses + 1 }) := by
  obtain ⟨area, heval, hholds⟩ :=
    eval_performStaging ha.holds (lt_size_of_lt_addressable ha.size) n.settings.stagingBatchSize
  refine ⟨area, heval, ha.restage hholds, ?_⟩
  unfold stageThen
  rw [Op.eval_bind_ok (Op.eval_get n), Op.eval_bind_ok heval, Op.eval_bind_ok (harrival _)]
  rfl

end Node

end TxRecovery
