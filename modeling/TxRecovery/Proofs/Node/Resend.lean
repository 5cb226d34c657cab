import TxRecovery.Node.State
import TxRecovery.Proofs.Ledger.Rows
import TxRecovery.Proofs.Node.Sound
import TxRecovery.Proofs.Payload.History
import TxRecovery.Proofs.Resend.Batches
import TxRecovery.Proofs.Text.Keys

/-!
# A node that gives out its history

`Node.Restores target`: the node has sent every payload in its ledger, and those that list the target are a
history. Asked for them it answers without a failure and tells of batches that put together are the views
of these payloads, in hash order (`Restores.eval_resend`). The views are themselves a history
(`Restores.history_viewsFor`), of different transactions.
-/

namespace TxRecovery

/-- The ledger stores the payload, and it lists the target. -/
def Ledger.Lists (l : Ledger) (target : PublicKey) (p : Payload) : Prop :=
  l.Stores p ∧ target ∈ p.recipients

namespace Node

variable {n : Node} {target : PublicKey} {q : Payload}

def archive (n : Node) : Archive := ⟨n.ledger.rows, n.keyring.keys, n.keyring.openPayload⟩

/-- A node tells what it publishes and forgets what it reads. -/
def journal : Journal Node Event Unit := ⟨fun _ => [], fun _ => [], events, outbound⟩

theorem backend_over (hstatus : n.keyring.status = .started) (hkeyed : n.ledger.Keyed) :
    backend.Over n.archive (fun m => m.ledger = n.ledger ∧ m.keyring = n.keyring ∧ m.area = n.area) journal where
  status m hm := by
    show (m.keyring.status, m) = _
    rw [hm.2.1, hstatus]
  ownedKeys m hm := by
    show (m.keyring.keys, m) = _
    rw [hm.2.1]
    rfl
  openPayload m hm p k := by
    show (m.keyring.openPayload p k, m) = _
    rw [hm.2.1]
    rfl
  ledgerSize m _ := ⟨m.ledger.size, rfl⟩
  ledgerPage m hm offset max := by
    have hpage : (backend.ledgerPage offset max).eval m = (m.ledger.page offset max, m) := rfl
    rw [hm.1, hkeyed.page] at hpage
    refine ⟨m, hpage, hm, ?_, rfl⟩
    simp [journal]
  publish m hm views k := ⟨hm, rfl, rfl⟩

/-- What `target` has lost is here, in a ledger that a process can hold, and this node may give it out: it has
sent all that it stores, and each payload that lists the target has a box for each of its recipients. -/
structure Restores (n : Node) (target : PublicKey) : Prop where
  status : n.keyring.status = .started
  fits : FitsInMemory n.ledger.tree
  keyed : n.ledger.Keyed
  sender : ∀ p, n.ledger.Stores p → p.sender ∈ n.keyring.keys
  boxes : ∀ p, n.ledger.Lists target p → p.recipients.length = p.boxes.length
  history : History (n.ledger.Lists target)

def viewsFor (n : Node) (target : PublicKey) : List Payload := n.archive.views target n.ledger.rows

namespace Restores

theorem verdict (hn : n.Restores target) {t : StoredTx} {p : Payload} (hp : Payload.decode t.raw = .ok p)
    (hs : n.ledger.Stores p) :
    (target ∉ p.recipients → n.archive.verdict target t = .ok none) ∧
      (target ∈ p.recipients →
        ∃ q, p.viewFor target = .ok q ∧ p.Narrowed q ∧ n.archive.verdict target t = .ok (some q)) := by
  have howned : p.sender ∈ n.archive.owned := hn.sender p hs
  have hentitled : n.archive.Entitled target p ↔ target ∈ p.recipients := by
    rw [Archive.Entitled, if_pos howned]
  have hview : n.archive.view target p = (p.viewFor target).mapError .payload := by
    rw [Archive.view, if_pos howned, Payload.viewFor]
    split <;> rfl
  unfold Archive.verdict
  simp only [hp, hentitled, hview]
  refine ⟨fun hno => if_neg hno, fun hlists => ?_⟩
  obtain ⟨q, hq, hnarrow⟩ := Payload.exists_viewFor (hn.boxes p ⟨hs, hlists⟩) hlists
  refine ⟨q, hq, hnarrow, ?_⟩
  rw [if_pos hlists, hq]
  rfl

theorem exists_verdict (hn : n.Restores target) {t : StoredTx} (ht : t ∈ n.ledger.rows) :
    ∃ view, n.archive.verdict target t = .ok view := by
  obtain ⟨p, hp, hs⟩ := hn.keyed.stores_of_mem ht
  obtain ⟨hno, hyes⟩ := hn.verdict hp hs
  by_cases hlists : target ∈ p.recipients
  · obtain ⟨q, -, -, hv⟩ := hyes hlists
    exact ⟨some q, hv⟩
  · exact ⟨none, hno hlists⟩

theorem scan_rows (hn : n.Restores target) :
    (n.archive.scan target n.ledger.rows).2 = none ∧
      (n.archive.scan target n.ledger.rows).1 = n.viewsFor target := by
  have hnone : (n.archive.scan target n.ledger.rows).2 = none := by
    cases hf : (n.archive.scan target n.ledger.rows).2 with
    | none => rfl
    | some e =>
      obtain ⟨done, t, later, hrows, he, -, -⟩ := n.archive.exists_of_scan target hf
      obtain ⟨view, hv⟩ := hn.exists_verdict (t := t) (hrows ▸ by simp)
      exact nomatch he.symm.trans hv
  exact ⟨hnone, (n.archive.scan_eq_views target hnone).2⟩

/-! ### Views -/

theorem verdict_eq_some (hn : n.Restores target) {t : StoredTx} (ht : t ∈ n.ledger.rows)
    (hv : n.archive.verdict target t = .ok (some q)) :
    ∃ p, Payload.decode t.raw = .ok p ∧ n.ledger.Lists target p ∧ p.viewFor target = .ok q ∧
      p.Narrowed q := by
  obtain ⟨p, hp, hs⟩ := hn.keyed.stores_of_mem ht
  obtain ⟨hno, hyes⟩ := hn.verdict hp hs
  by_cases hlists : target ∈ p.recipients
  · obtain ⟨q', hq', hnarrow, hv'⟩ := hyes hlists
    cases hv.symm.trans hv'
    exact ⟨p, hp, ⟨hs, hlists⟩, hq', hnarrow⟩
  · exact nomatch hv.symm.trans (hno hlists)

theorem mem_viewsFor (hn : n.Restores target) :
    q ∈ n.viewsFor target ↔ ∃ p, n.ledger.Lists target p ∧ p.viewFor target = .ok q ∧ p.Narrowed q := by
  unfold viewsFor Archive.views
  simp only [List.mem_filterMap, ← Option.mem_def, mem_join_toOption]
  constructor
  · rintro ⟨t, ht, hv⟩
    obtain ⟨p, -, hlists, hq, hnarrow⟩ := hn.verdict_eq_some ht hv
    exact ⟨p, hlists, hq, hnarrow⟩
  · rintro ⟨p, hlists, hq, -⟩
    obtain ⟨t, ht, hp⟩ := hn.keyed.mem_of_stores hlists.1
    obtain ⟨-, hyes⟩ := hn.verdict hp hlists.1
    obtain ⟨q', hq', -, hv⟩ := hyes hlists.2
    cases hq.symm.trans hq'
    exact ⟨t, ht, hv⟩

theorem pairwise_viewsFor (hn : n.Restores target) :
    (n.viewsFor target).Pairwise fun q r => q.hash ≠ r.hash := by
  unfold viewsFor Archive.views
  rw [List.pairwise_filterMap]
  refine hn.keyed.pairwise_rows.imp_of_mem fun {t t'} ht ht' hne q hq r hr => ?_
  obtain ⟨p, hp, -, -, hnarrow⟩ := hn.verdict_eq_some ht (mem_join_toOption.1 hq)
  obtain ⟨p', hp', -, -, hnarrow'⟩ := hn.verdict_eq_some ht' (mem_join_toOption.1 hr)
  rw [hnarrow.hash, hnarrow'.hash]
  exact hne p p' hp hp'

theorem history_viewsFor (hn : n.Restores target) : History (· ∈ n.viewsFor target) := by
  refine hn.history.narrow (fun p hp => ?_) fun q hq => ?_
  · obtain ⟨q, hq, hnarrow⟩ := Payload.exists_viewFor (hn.boxes p hp) hp.2
    exact ⟨q, hn.mem_viewsFor.2 ⟨p, hp, hq, hnarrow⟩, hnarrow⟩
  · obtain ⟨p, hp, -, hnarrow⟩ := hn.mem_viewsFor.1 hq
    exact ⟨p, hp, hnarrow⟩

theorem length_viewsFor (hn : n.Restores target) : (n.viewsFor target).length < addressable := by
  have hle : (n.viewsFor target).length ≤ n.ledger.rows.length := List.length_filterMap_le _ _
  rw [Ledger.length_rows] at hle
  exact Nat.lt_of_le_of_lt hle hn.fits.size

/-! ### The request -/

theorem eval_resend (hn : n.Restores target) {size : Nat} (hsize : 1 ≤ size) :
    ∃ (batches : List (List Payload)) (m : Node),
      (resend ⟨target.toBase64, size⟩).eval n = (.ok n.ledger.size, m) ∧
      m.events = n.events ++ batches.map (outbound · target) ∧ batches.flatten = n.viewsFor target := by
  obtain ⟨hnone, hviews⟩ := hn.scan_rows
  have hall : n.archive.rows.take n.ledger.size = n.ledger.rows :=
    List.take_of_length_le (Nat.le_of_eq (Ledger.length_rows n.ledger))
  have hcount : backend.ledgerSize.eval n = (.ok n.ledger.size, n) := rfl
  have htarget : PublicKey.ofBase64 (ResendRequest.mk target.toBase64 size).target = .ok target :=
    PublicKey.ofBase64_toBase64 target
  obtain ⟨batches, rest, m, heval, hpacked, hok, -⟩ :=
    (backend_over hn.status hn.keyed).resend ⟨rfl, rfl, rfl⟩ hcount htarget hsize
  rw [hall, hnone, Ledger.length_rows] at heval
  rw [hall] at hok hpacked
  rw [hviews] at hpacked
  exact ⟨_, m, heval, (hok hnone).2, hpacked.batched.flatten⟩

end Restores

end Node

end TxRecovery
