import TxRecovery.Proofs.Node.Intake

/-!
# Sound nodes

`Node.Sound n c`: the node's staging area holds the rows `c`, every version of which is a payload of its
row's transaction, its ledger reads back, and both stores fit in memory. Each request keeps a node sound
as long as the stores still fit (`Sound.push`, `Sound.stage`, `Sound.sync`, `Sound.cleanup`): what is
written is then short enough to read back, since a merged payload is no longer than its two parts
(`Sound.hasRoom`).
-/

namespace TxRecovery

namespace Payload

theorem bytesOf_append (h : TxHash) (xs ys : List Bytes) :
    bytesOf h (xs ++ ys) = bytesOf h xs + bytesOf h ys := by
  simp only [bytesOf, List.filter_append, List.map_append, List.sum_append]

end Payload

namespace Staging

variable {c : Contents} {row : Row} {h : TxHash} {bound : Nat}

theorem Row.Faithful.bytesOf_raws (hr : row.Faithful) (h : TxHash) :
    Payload.bytesOf h row.raws = if row.hash = h then row.rawBytes else 0 := by
  have hof : ∀ raw ∈ row.raws, Payload.isOf h raw = decide (row.hash = h) := by
    intro raw hraw
    obtain ⟨p, hp, hh⟩ := hr.of_mem_raws hraw
    rw [Payload.isOf_of_decode hp, hh]
  rw [Payload.bytesOf, List.filter_congr hof]
  split
  · rename_i he
    rw [List.filter_eq_self.2 fun _ _ => decide_eq_true he]
    rfl
  · rename_i he
    rw [List.filter_eq_nil_iff.2 fun _ _ => by simpa using he]
    rfl

/-- Rows of different transactions: one of them at most has payloads of `h`. -/
theorem bytesOf_flatMap_raws_le {rows : List Row} (hne : rows.Pairwise fun r r' => r.hash ≠ r'.hash)
    (hf : ∀ r ∈ rows, r.Faithful) (hb : ∀ r ∈ rows, r.rawBytes ≤ bound) (h : TxHash) :
    Payload.bytesOf h (rows.flatMap Row.raws) ≤ bound := by
  induction rows with
  | nil => exact Nat.zero_le _
  | cons r rows ih =>
    obtain ⟨hr, hrows⟩ := List.pairwise_cons.1 hne
    obtain ⟨hf1, hf2⟩ := List.forall_mem_cons.1 hf
    obtain ⟨hb1, hb2⟩ := List.forall_mem_cons.1 hb
    rw [List.flatMap_cons, Payload.bytesOf_append, hf1.bytesOf_raws]
    split
    · rename_i he
      have hzero : Payload.bytesOf h (rows.flatMap Row.raws) = 0 := by
        rw [Payload.bytesOf, List.filter_eq_nil_iff.2]
        · rfl
        · intro raw hraw
          obtain ⟨r', hr', hraw⟩ := List.mem_flatMap.1 hraw
          obtain ⟨p, hp, hh⟩ := (hf2 r' hr').of_mem_raws hraw
          rw [Payload.isOf_of_decode hp, hh, ← he]
          simpa using (hr r' hr').symm
      omega
    · have := ih hrows hf2 hb2
      omega

namespace Contents

theorem Faithful.bytesOf_queue_le (hc : c.Faithful) (hb : ∀ r ∈ c.values, r.rawBytes ≤ bound)
    (h : TxHash) : Payload.bytesOf h c.queue ≤ bound := by
  have hmem : ∀ r ∈ c.ordered, r ∈ c.values := fun r hr => (mem_ordered.1 hr).1
  have hne : c.ordered.Pairwise fun r r' => r.hash ≠ r'.hash :=
    (c.ordered_perm.pairwise_iff fun h => h.symm).2 (hc.keyed.pairwise_hash_ne.filter _)
  exact bytesOf_flatMap_raws_le hne (fun r hr => hc.row r (hmem r hr)) (fun r hr => hb r (hmem r hr)) h

theorem Faithful.decode_queue (hc : c.Faithful) : ∀ raw ∈ c.queue, ∃ p, Payload.decode raw = .ok p := by
  intro raw hraw
  obtain ⟨row, hrow, -, hmem⟩ := mem_queue.1 hraw
  obtain ⟨p, hp, -⟩ := (hc.row row hrow).of_mem_raws hmem
  exact ⟨p, hp⟩

end Contents

end Staging

open Staging (Version ViewKey) in
/-- The ledger has the transaction `h` in the version's mode, for every key that the version pairs with a
box. -/
def Ledger.Secures (l : Ledger) (h : TxHash) (v : Version) : Prop :=
  ∃ p q, Payload.decode v.raw = .ok p ∧ l.payload? h = .ok (some q) ∧ q.mode = v.mode ∧
    ∀ e ∈ p.recipients.zip p.boxes, e.1 ∈ q.recipients

open Staging (Row Version ViewKey) in
theorem Staging.Row.IsView.secures {l : Ledger} {h : TxHash} {k : ViewKey} {v : Version} {p : Payload}
    (hv : Row.IsView h k v p) (hl : l.Covers p) : l.Secures h v := by
  obtain ⟨q, hq, hm, hk⟩ := hl
  exact ⟨p, q, hv.decode, hv.hash ▸ hq, hm.trans hv.mode.symm, hk⟩

namespace Node

open Staging (Area Contents Row Version)

variable {n : Node} {c : Contents} {t : Tally} {l : Ledger}

structure Fits (n : Node) : Prop where
  ledger : FitsInMemory n.ledger.tree
  area : FitsInMemory n.area.tree

instance (n : Node) : Decidable n.Fits :=
  decidable_of_iff (FitsInMemory n.ledger.tree ∧ FitsInMemory n.area.tree)
    ⟨fun h => ⟨h.1, h.2⟩, fun h => ⟨h.ledger, h.area⟩⟩

structure Sound (n : Node) (c : Contents) : Prop where
  holds : n.area.Holds c
  faithful : c.Faithful
  ledger : n.ledger.Sound
  fits : FitsInMemory n.ledger.tree
  size : c.size < addressable
  rawBytes : ∀ row ∈ c.values, row.rawBytes < addressable

theorem sound_fresh (version : String) (settings : Settings) (keyring : Keyring) :
    (fresh version settings keyring).Sound .empty :=
  ⟨Area.holds_empty, Contents.faithful_empty, Ledger.sound_empty, fitsInMemory_empty, by decide, nofun⟩

theorem Sound.hasRoom (hn : n.Sound c) : n.ledger.HasRoom c.queue := by
  intro h
  have hq : Payload.bytesOf h c.queue ≤ addressable - 1 :=
    hn.faithful.bytesOf_queue_le (fun r hr => Nat.le_pred_of_lt (hn.rawBytes r hr)) h
  have hw := Ledger.weight_lt hn.fits h
  have hsize : addressable + addressable ≤ UInt64.size := by decide
  omega

theorem Sound.area_sound (hn : n.Sound c) : n.area.Sound c := ⟨hn.holds, hn.faithful, hn.size, hn.rawBytes⟩

theorem Sound.of_area {c' : Contents} {area : Area} (hn : n.Sound c) (ha : area.Sound c') (metrics : Metrics) :
    ({ n with area, metrics } : Node).Sound c' :=
  ⟨ha.holds, ha.faithful, hn.ledger, hn.fits, ha.size, ha.rawBytes⟩

/-! ### Pushes -/

theorem Sound.push {raws : List Bytes} (hn : n.Sound c)
    (hfit : ∀ k, ((push (raws.take k)).eval n).2.Fits) : ((Node.push raws).eval n).2.Sound (c.push raws) := by
  obtain ⟨area, heval, harea⟩ := eval_push hn.area_sound raws fun k => (hfit k).area
  rw [heval]
  exact hn.of_area harea n.metrics

/-! ### Passes -/

theorem eval_stage (hn : n.Sound c) :
    ∃ area metrics, stage.eval n = (.ok (.ofStaging c.size c.stageable), { n with area, metrics }) ∧
      area.Holds c.restage := by
  obtain ⟨area, -, hsound, heval⟩ := eval_stageThen (f := id) hn.area_sound (Op.eval_pure ())
  exact ⟨area, _, heval, hsound.holds⟩

theorem Sound.restage {area : Area} (hn : n.Sound c) (ha : area.Holds c.restage) (metrics : Metrics) :
    ({ n with area, metrics } : Node).Sound c.restage :=
  hn.of_area (hn.area_sound.restage ha) metrics

theorem Sound.exists_replayed (hn : n.Sound c) : ∃ t l, n.ledger.Replayed .zero c.queue t l :=
  Ledger.exists_replayed hn.ledger hn.faithful.decode_queue hn.hasRoom .zero

/-- If nothing is refused, the ledger has every version of every staged row. -/
theorem Sound.secures_of_replayed (hn : n.Sound c) (hr : n.ledger.Replayed .zero c.queue t l)
    (hv : t.violations = 0) {row : Row} (hrow : row ∈ c.values) (hs : row.stage.isSome) {v : Version}
    (hmem : v ∈ row.versions.values) : l.Secures row.hash v := by
  obtain ⟨k, p, hp⟩ := (hn.faithful.row row hrow).of_mem_values hmem
  have hqueue : v.raw ∈ c.queue :=
    Contents.mem_queue.2 ⟨row, hrow, Option.isSome_iff_exists.1 hs, List.mem_map_of_mem hmem⟩
  exact hp.secures (hr.covers hv v.raw hqueue p hp.decode)

theorem eval_sync_of_pageSize (hc : n.area.Holds c) (hr : n.ledger.Replayed .zero c.queue t l) (pageSize : Nat) :
    (backend.sync pageSize).eval n = (.ok t, { n with ledger := l }) := by
  rw [eval_sync hc, replay, hr.replay]
  rfl

/-- A synchronisation right after a staging pass. -/
theorem Sound.eval_sync_staged (hn : n.Sound c) (hr : n.ledger.Replayed .zero c.restage.queue t l) (pageSize : Nat) :
    (Node.stage.eval n).2.area.Holds c.restage ∧
      (backend.sync pageSize).eval (Node.stage.eval n).2 = (.ok t, { (Node.stage.eval n).2 with ledger := l }) := by
  obtain ⟨area, metrics, hstage, hholds⟩ := eval_stage hn
  rw [hstage]
  exact ⟨hholds, eval_sync_of_pageSize (n := { n with area, metrics }) hholds hr pageSize⟩

/-- A synchronisation leaves the area alone; what arrives then comes to the node with the new ledger. -/
theorem eval_syncThen (hc : n.area.Holds c) (hr : n.ledger.Replayed .zero c.queue t l) {arrival : NodeOp Unit}
    {f : Node → Node} (harrival : ∀ m, arrival.eval m = (.ok (), f m)) :
    (backend.sync n.settings.syncPageSize).eval n = (.ok t, { n with ledger := l }) ∧
      (syncThen arrival).eval n = (.ok t, (f { n with ledger := l }).count fun m =>
        { m with
          versionsCommitted := m.versionsCommitted + t.committed
          privacyViolations := m.privacyViolations + t.violations }) := by
  have hsync := eval_sync_of_pageSize hc hr n.settings.syncPageSize
  refine ⟨hsync, ?_⟩
  unfold syncThen
  rw [Op.eval_bind_ok (Op.eval_get n), Op.eval_bind_ok hsync, Op.eval_bind_ok (harrival _)]
  rfl

theorem eval_sync_of_replayed (hc : n.area.Holds c) (hr : n.ledger.Replayed .zero c.queue t l) :
    ∃ metrics, sync.eval n = (.ok t, { n with ledger := l, metrics }) :=
  ⟨_, (eval_syncThen (f := id) hc hr (Op.eval_pure ())).2⟩

theorem eval_clearArea (n : Node) (batch : Nat) :
    (backend.clearArea batch).eval n = (.ok n.area.size, { n with area := .empty }) := by
  simp only [backend, writing, Op.eval_mk, Area.clear_eq]

theorem eval_backend_cleanup (n : Node) (batch : Nat) :
    (backend.cleanup batch).eval n = (.ok n.area.size, { n with area := .empty }) := by
  unfold Backend.cleanup
  rw [Op.eval_mapError, eval_clearArea]
  rfl

theorem eval_cleanup (n : Node) : cleanup.eval n =
    (.ok n.area.size, { n with area := .empty, metrics := { n.metrics with stagingRows := 0 } }) := by
  unfold cleanup
  rw [Op.eval_bind_ok (Op.eval_get n), Op.eval_bind_ok (eval_backend_cleanup n n.settings.cleanupBatchSize)]
  rfl

/-! ### Requests -/

theorem Sound.stage (hn : n.Sound c) : (Node.stage.eval n).2.Sound c.restage := by
  obtain ⟨area, metrics, heval, hholds⟩ := eval_stage hn
  rw [heval]
  exact hn.restage hholds metrics

theorem Sound.sync (hn : n.Sound c) (hfit : (Node.sync.eval n).2.Fits) : (Node.sync.eval n).2.Sound c := by
  obtain ⟨t, l, hr⟩ := hn.exists_replayed
  obtain ⟨metrics, heval⟩ := eval_sync_of_replayed hn.holds hr
  rw [heval] at hfit ⊢
  exact ⟨hn.holds, hn.faithful, hr.sound, hfit.ledger, hn.size, hn.rawBytes⟩

theorem Sound.cleared {metrics : Metrics} (hn : n.Sound c) :
    ({ n with area := .empty, metrics } : Node).Sound .empty :=
  hn.of_area Area.sound_empty metrics

theorem Sound.cleanup (hn : n.Sound c) : (Node.cleanup.eval n).2.Sound .empty := by
  rw [eval_cleanup]
  exact hn.cleared

end Node

end TxRecovery
