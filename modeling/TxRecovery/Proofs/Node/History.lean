import TxRecovery.Proofs.Ledger.Growth
import TxRecovery.Proofs.Node.Reachable
import TxRecovery.Proofs.Node.Resend
import TxRecovery.Proofs.Resend.Disclosure

/-!
# The history of a node

`Node.Leads n m`: requests lead from the node `n` to the node `m`, resends among them. A resend leaves the stores alone
(`resend_keeps`), and of the other requests only those that synchronise write to the ledger, which then grows by the
payloads of the staged rows (`Sound.grows_run`). So a node that comes from empty stores has a keyed ledger, each row of
which is there ever after, for more parties perhaps but otherwise the same (`history_kept`).
-/

namespace TxRecovery

namespace Node

open Staging (Contents)

variable {n m : Node} {c : Contents}

/-! ### Resends -/

/-- A resend either ends before it looks at the ledger or has all that it needs to walk it. -/
theorem resend_cases (n : Node) (request : ResendRequest) :
    (∃ e, (resend request).eval n = (.error e, n) ∧
      (e = .enclaveUnavailable ∨ e = .invalidBatchSize ∨ ∃ k, e = .invalidPublicKey k)) ∨
    (n.keyring.status = .started ∧ 1 ≤ request.batchSize ∧
      ∃ target, PublicKey.ofBase64 request.target = .ok target) := by
  have hstatus : (liftM backend.enclaveStatus : NodeOp _).eval n = (.ok n.keyring.status, n) := rfl
  unfold resend Backend.resend
  rw [Op.eval_bind_ok hstatus]
  by_cases hstarted : n.keyring.status = .started
  · by_cases hsize : request.batchSize = 0
    · exact .inl ⟨.invalidBatchSize, by simp [hstarted, hsize]; rfl, .inr (.inl rfl)⟩
    · cases ht : PublicKey.ofBase64 request.target with
      | error k =>
        refine .inl ⟨.invalidPublicKey k, ?_, .inr (.inr ⟨k, rfl⟩)⟩
        rw [if_neg (by simp [hstarted]), if_neg hsize]
        rfl
      | ok target => exact .inr ⟨hstarted, Nat.one_le_iff_ne_zero.2 hsize, target, rfl⟩
  · exact .inl ⟨.enclaveUnavailable, by simp [hstarted]; rfl, .inl rfl⟩

/-- The node as it may be during a resend: only what it told, and the count of it, have changed. -/
def Telling (n m : Node) : Prop :=
  ∃ events published, m = { n with events, metrics := { n.metrics with batchesPublished := published } }

theorem reports (n : Node) : backend.Reports n.ledger.rows n.keyring.keys (Telling n) journal where
  status m hm := ⟨hm, rfl⟩
  ownedKeys m hm := by
    refine ⟨⟨hm, rfl⟩, ?_⟩
    obtain ⟨events, published, rfl⟩ := hm
    rfl
  openPayload m hm _ _ := ⟨hm, rfl⟩
  ledgerSize m hm := ⟨hm, rfl⟩
  ledgerPage m hm offset max := by
    refine ⟨⟨hm, rfl⟩, fun page hpage row hrow => ?_⟩
    obtain ⟨events, published, rfl⟩ := hm
    have hpage : n.ledger.page offset max = .ok page := hpage
    obtain ⟨v, hv, hrow⟩ := exists_of_mem_mapM hpage hrow
    refine List.mem_map.2 ⟨v, List.mem_of_mem_drop (List.mem_of_mem_take hv), ?_⟩
    rw [hrow]
    rfl
  publish m hm views k := by
    obtain ⟨events, published, rfl⟩ := hm
    exact ⟨⟨_, _, rfl⟩, rfl⟩

theorem telling_resend (n : Node) (request : ResendRequest) : n.Telling ((resend request).eval n).2 := by
  have hbegin : n.Telling n := ⟨n.events, n.metrics.batchesPublished, rfl⟩
  rcases resend_cases n request with ⟨e, heval, -⟩ | ⟨-, -, target, ht⟩
  · rw [heval]
    exact hbegin
  · have htold : Backend.Told n.ledger.rows n.keyring.keys n.Telling journal target n.events n :=
      ⟨hbegin, [], by simp [journal], nofun⟩
    exact (n.reports.resend ht n htold).1.keeps

theorem resend_keeps (n : Node) (request : ResendRequest) :
    ((resend request).eval n).2.ledger = n.ledger ∧ ((resend request).eval n).2.area = n.area := by
  obtain ⟨events, published, heval⟩ := n.telling_resend request
  rw [heval]
  exact ⟨rfl, rfl⟩

/-! ### Requests -/

theorem Sound.grows (hn : n.Sound c) : n.ledger.Grows n.ledger := .refl hn.ledger hn.fits

/-- Whatever a request does to the ledger, it does by committing payloads that read. -/
theorem Sound.grows_run (hn : n.Sound c) (r : Request) (hfit : ∀ m ∈ r.trail n, m.Fits) :
    n.ledger.Grows (r.run n).ledger := by
  cases r with
  | push payloads =>
    obtain ⟨area, heval, -⟩ := eval_push hn.area_sound payloads fun k => (forall_take_of_trail hfit k).area
    rw [Request.run, heval]
    exact hn.grows
  | stage =>
    obtain ⟨area, metrics, heval, -⟩ := eval_stage hn
    rw [Request.run, heval]
    exact hn.grows
  | sync =>
    obtain ⟨t, l, hr⟩ := hn.exists_replayed
    obtain ⟨metrics, heval⟩ := eval_sync_of_replayed hn.holds hr
    rw [Request.run, heval]
    exact ⟨_, hn.faithful.decode_queue, hn.hasRoom, t, hr⟩
  | cleanup =>
    rw [Request.run, eval_cleanup]
    exact hn.grows
  | pass now =>
    by_cases hne : n.area.size = 0
    · rw [Request.run, eval_runPass_of_empty now hne]
      exact hn.grows
    · obtain ⟨area, metrics, -, hholds⟩ := eval_stage hn
      have hstaged := hn.restage hholds metrics
      obtain ⟨t, l, hr⟩ := hstaged.exists_replayed
      obtain ⟨s, m, heval, rfl, -⟩ := eval_runPass now hn hne hr
      rw [Request.run, heval]
      exact ⟨_, hstaged.faithful.decode_queue, hstaged.hasRoom, t, hr⟩

/-! ### Runs -/

/-- What may happen to a node: a request that works on its stores, or a resend. -/
inductive Move where
  | request (r : Request)
  | resend (r : ResendRequest)

namespace Move

def run : Move → Node → Node
  | request r, n => r.run n
  | resend r, n => ((Node.resend r).eval n).2

def trail : Move → Node → List Node
  | request r, n => r.trail n
  | resend _, _ => []

/-- What a move may leave of the rows `c` of the staging area. -/
def Leaves : Move → Contents → Contents → Prop
  | request r, c, c' => r.Leaves c c'
  | resend _, c, c' => c' = c

end Move

inductive Leads (n : Node) : Node → Prop where
  | refl : Leads n n
  | step {m : Node} (e : Move) (hm : Leads n m) (hfit : ∀ x ∈ e.trail m, x.Fits) : Leads n (e.run m)

/-- A node that comes from empty stores, resends included. -/
def Serving (n : Node) : Prop := ∃ version settings keyring, (Node.fresh version settings keyring).Leads n

theorem Reachable.serving (hn : Reachable n) : Serving n := by
  induction hn with
  | fresh version settings keyring => exact ⟨version, settings, keyring, .refl⟩
  | step r _ hfit ih =>
    obtain ⟨version, settings, keyring, hlead⟩ := ih
    exact ⟨version, settings, keyring, hlead.step (.request r) hfit⟩

theorem Sound.of_stores {m : Node} (hn : n.Sound c) (hledger : m.ledger = n.ledger) (harea : m.area = n.area) :
    m.Sound c :=
  ⟨harea ▸ hn.holds, hn.faithful, hledger ▸ hn.ledger, hledger ▸ hn.fits, hn.size, hn.rawBytes⟩

/-- One move: what is stored stays, under its hash. -/
theorem Move.exists_sound (e : Move) (hn : n.Sound c) (hkeyed : n.ledger.Keyed) (hfit : ∀ x ∈ e.trail n, x.Fits) :
    ∃ c', e.Leaves c c' ∧ (e.run n).Sound c' ∧ (e.run n).ledger.Keyed ∧ n.ledger.Extends (e.run n).ledger := by
  cases e with
  | request r =>
    obtain ⟨c', hleaves, hc'⟩ := hn.run r hfit
    have hgrows := hn.grows_run r hfit
    exact ⟨c', hleaves, hc', hgrows.keyed hkeyed, hgrows.extends_⟩
  | resend r =>
    obtain ⟨hledger, harea⟩ := resend_keeps n r
    refine ⟨c, rfl, hn.of_stores hledger harea, ?_, ?_⟩
    · rwa [Move.run, hledger]
    · rw [Move.run, hledger]
      exact .refl _

/-- What each move keeps of the rows of the area, a run of moves keeps. -/
theorem Leads.induct {P : Contents → Prop} (hstep : ∀ e c c', c.Faithful → Move.Leaves e c c' → P c → P c')
    (hm : n.Leads m) (hn : n.Sound c) (hkeyed : n.ledger.Keyed) (hP : P c) :
    ∃ c', m.Sound c' ∧ P c' ∧ m.ledger.Keyed ∧ n.ledger.Extends m.ledger := by
  induction hm with
  | refl => exact ⟨c, hn, hP, hkeyed, .refl _⟩
  | step e _ hfit ih =>
    obtain ⟨c', hc', hP', hkeyed', hext⟩ := ih
    obtain ⟨c'', hleaves, hc'', hkeyed'', hext'⟩ := e.exists_sound hc' hkeyed' hfit
    exact ⟨c'', hc'', hstep e c' c'' hc'.faithful hleaves hP', hkeyed'', hext.trans hext'⟩

theorem Leads.exists_sound (hm : n.Leads m) (hn : n.Sound c) (hkeyed : n.ledger.Keyed) :
    ∃ c', m.Sound c' ∧ m.ledger.Keyed ∧ n.ledger.Extends m.ledger := by
  obtain ⟨c', hc', -, hrest⟩ := hm.induct (P := fun _ => True) (fun _ _ _ _ _ h => h) hn hkeyed trivial
  exact ⟨c', hc', hrest⟩

theorem Serving.exists_sound (hn : Serving n) : ∃ c, n.Sound c ∧ n.ledger.Keyed := by
  obtain ⟨version, settings, keyring, hlead⟩ := hn
  obtain ⟨c, hc, hkeyed, -⟩ := hlead.exists_sound (sound_fresh version settings keyring) Ledger.keyed_empty
  exact ⟨c, hc, hkeyed⟩

/-- Each row is kept under the digest of its ciphertext and is there in every later state, where more parties may be
listed behind those that were. -/
theorem history_kept (hn : Serving n) (hm : n.Leads m) {k v : Bytes} (hv : n.ledger.tree.get? k = some v) :
    ∃ t p, decodeStored StoredTx.format v = .ok t ∧ Payload.decode t.raw = .ok p ∧ k = Sha512.hash p.ciphertext ∧
      ∃ v' t' rs bs, m.ledger.tree.get? k = some v' ∧ decodeStored StoredTx.format v' = .ok t' ∧
        Payload.decode t'.raw = .ok { p with recipients := p.recipients ++ rs, boxes := p.boxes ++ bs } := by
  obtain ⟨c, hc, hkeyed⟩ := hn.exists_sound
  obtain ⟨-, -, hkeyed', hext⟩ := hm.exists_sound hc hkeyed
  obtain ⟨t, p, ht, hp, hk, v', t', q, hv', ht', hq, rs, bs, rfl⟩ := hkeyed.kept hkeyed' hext hv
  exact ⟨t, p, ht, hp, hk, v', t', rs, bs, hv', ht', hq⟩

/-! ### A payload that is merged into -/

/-- What the party `b` has of one transaction. -/
def sampleView (b : UInt8) : Payload :=
  ⟨⟨.replicate 32 1⟩, [1], default, [[b]], default, [⟨.replicate 32 b⟩], .partyProtection, .empty, []⟩

/-- The moves that bring the view of a party into the ledger. -/
def Move.deliver (b : UInt8) : List Move := [.request (.push [(sampleView b).encode]), .request (.pass "")]

/-- A node that took in one view. -/
def sampleEarlier : Node :=
  (Move.deliver 2).foldl (fun n e => e.run n) (.fresh "" .standard ⟨.standard, .started, .empty⟩)

/-- Since then it was asked for its history, and another view came. -/
def sampleLater : Node := (.resend ⟨"", 100⟩ :: Move.deliver 3).foldl (fun n e => e.run n) sampleEarlier

theorem serving_sampleEarlier : Serving sampleEarlier :=
  ⟨"", .standard, ⟨.standard, .started, .empty⟩,
    (Leads.refl.step (.request (.push [(sampleView 2).encode])) (by decide +kernel)).step (.request (.pass ""))
      (by decide +kernel)⟩

theorem sampleEarlier_leads : sampleEarlier.Leads sampleLater :=
  ((Leads.refl.step (.resend ⟨"", 100⟩) nofun).step (.request (.push [(sampleView 3).encode])) (by decide +kernel)).step
    (.request (.pass "")) (by decide +kernel)

theorem history_kept_sample : ∃ k v, sampleEarlier.ledger.tree.get? k = some v ∧
    ∃ t p, decodeStored StoredTx.format v = .ok t ∧ Payload.decode t.raw = .ok p ∧ k = Sha512.hash p.ciphertext ∧
      ∃ v' t' rs bs, sampleLater.ledger.tree.get? k = some v' ∧ decodeStored StoredTx.format v' = .ok t' ∧
        Payload.decode t'.raw = .ok { p with recipients := p.recipients ++ rs, boxes := p.boxes ++ bs } := by
  have hrow : (sampleEarlier.ledger.tree.get? (sampleView 2).hash.bytes).isSome = true := by decide +kernel
  obtain ⟨v, hv⟩ := Option.isSome_iff_exists.1 hrow
  exact ⟨_, v, hv, history_kept serving_sampleEarlier sampleEarlier_leads hv⟩

end Node

end TxRecovery
