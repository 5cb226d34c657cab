import TxRecovery.Proofs.Keyring
import TxRecovery.Proofs.Node.Recovery

/-!
# A sender recovers from one recipient

A recipient that has kept its view of a payload, with or without its key, can open it, and so it names its key and
gives the view back to the sender (`Archive.verdict_of_opens`). What the sender gets is again sealed for that recipient
alone. A sender that has lost everything stages it, commits it, and opens it through the recipient's box
(`sender_recovers`).
-/

namespace TxRecovery

open Keyring (Entropy sealFor)

/-- The owner of one key gives a payload that it can open back to the sender, and names its key. -/
theorem Archive.verdict_of_opens {x : Archive} {row : StoredTx} {p : Payload} {k : PublicKey} {m : Bytes}
    (hp : Payload.decode row.raw = .ok p) (howned : x.owned = .ofList [k]) (hne : k ≠ p.sender)
    (hopen : x.opens p k = .ok m) : x.verdict p.sender row = .ok (some (p.withRecipient k)) := by
  have hforeign : p.sender ∉ x.owned := by
    rw [howned, SortedSet.mem_ofList, List.mem_singleton]
    exact hne.symm
  have hkeys : x.owned.toList = [k] := by
    rw [howned]
    rfl
  have hentitled : x.Entitled p.sender p := by
    rw [Archive.Entitled, if_neg hforeign]
    exact .inl rfl
  have hview : x.view p.sender p = .ok (p.withRecipient k) := by
    rw [Archive.view, if_neg hforeign, hkeys]
    simp only [Archive.openingKey, hopen, Except.map]
  simp only [Archive.verdict, hp, if_pos hentitled, hview, Except.map]

theorem Ledger.rows_ofPayloads_singleton {p : Payload} (hlen : p.encode.length < UInt64.size) :
    (Ledger.ofPayloads [p]).rows = [⟨p.hash, p.encode⟩] := by
  have hrow : decodeStored StoredTx.format (StoredTx.format.write ⟨p.hash, p.encode⟩) = .ok ⟨p.hash, p.encode⟩ :=
    decodeStored_eq_ok.2 (StoredTx.format_lawful.decode_write ⟨p.length_hash_lt, hlen⟩)
  have hvalues : (Ledger.ofPayloads [p]).tree.values = [StoredTx.format.write ⟨p.hash, p.encode⟩] := rfl
  rw [Ledger.rows, hvalues, List.map_singleton, hrow]
  rfl

namespace Keyring

variable {suite : CipherSuite} {own peer : Block 32} {fresh : Entropy} {m : Bytes} {k : PublicKey}

/-- With or without its key: once the key is named, the view is complete. -/
theorem withRecipient_sealFor (held : Payload)
    (hheld : held = sealFor suite own fresh m [k] ∨ held = { sealFor suite own fresh m [k] with recipients := [] }) :
    held.withRecipient k = sealFor suite own fresh m [k] := by
  rcases hheld with rfl | rfl
  · exact Payload.withRecipient_of_mem List.mem_cons_self
  · exact Payload.withRecipient_of_not_mem List.not_mem_nil

end Keyring

namespace Node

variable {suite : CipherSuite} {own peer : Block 32} {fresh : Entropy} {m : Bytes} {R : List PublicKey}
  {a b : Node} {p view held : Payload}

/-- All that the node has is one key and one payload, in stores that a process can hold. -/
structure HasOnly (n : Node) (suite : CipherSuite) (secret : Block 32) (held : Payload) : Prop where
  keyring : n.keyring = .ofSecrets suite [secret]
  ledger : n.ledger = .ofPayloads [held]
  fits : FitsInMemory n.ledger.tree

namespace HasOnly

theorem length_encode_lt (hb : b.HasOnly suite peer held) : held.encode.length + 80 < addressable := by
  have hstored : StoredTx.format.write ⟨held.hash, held.encode⟩ ∈ b.ledger.tree.values := by
    rw [hb.ledger]
    exact List.mem_singleton_self _
  have hlen : (StoredTx.format.write ⟨held.hash, held.encode⟩).length = held.encode.length + 80 := by
    show ((Format.bytes.write held.hash.bytes ++ Format.bytes.write held.encode : Bytes)).length = _
    rw [List.length_append, Format.length_write_bytes, Format.length_write_bytes,
      show held.hash.bytes.length = 64 from TxHash.length_ofCiphertext held.ciphertext]
    omega
  exact hlen ▸ hb.fits.value _ hstored

theorem length_encode_lt_size (hb : b.HasOnly suite peer held) : held.encode.length < UInt64.size :=
  lt_size_of_lt_addressable (Nat.lt_of_le_of_lt (Nat.le_add_right _ _) hb.length_encode_lt)

theorem decode_encode (hb : b.HasOnly suite peer held) : Payload.decode held.encode = .ok held :=
  Payload.decode_encode (Payload.fits_of_length_lt hb.length_encode_lt_size)

theorem keyed (hb : b.HasOnly suite peer held) : b.ledger.Keyed := by
  rw [hb.ledger]
  refine Ledger.keyed_ofPayloads (List.pairwise_singleton _ _) ?_ ?_
  · exact List.forall_mem_singleton.2 (Payload.fits_of_decode hb.decode_encode)
  · exact List.forall_mem_singleton.2 hb.length_encode_lt_size

/-- A payload that the owner of the only key can open goes back to its sender, in one batch of any size. -/
theorem eval_resend (hb : b.HasOnly suite peer held) (hne : suite.publicOf peer ≠ held.sender)
    (hopen : b.keyring.openPayload held (suite.publicOf peer) = .ok m) {size : Nat} (hsize : 1 ≤ size) :
    ∃ b', (resend ⟨held.sender.toBase64, size⟩).eval b = (.ok 1, b') ∧
      b'.events = b.events ++ [outbound [held.withRecipient (suite.publicOf peer)] held.sender] := by
  have hrows : b.archive.rows = [⟨held.hash, held.encode⟩] := by
    show b.ledger.rows = _
    rw [hb.ledger, Ledger.rows_ofPayloads_singleton hb.length_encode_lt_size]
  have hverdict : b.archive.verdict held.sender ⟨held.hash, held.encode⟩ =
      .ok (some (held.withRecipient (suite.publicOf peer))) :=
    Archive.verdict_of_opens hb.decode_encode (congrArg Keyring.keys hb.keyring) hne hopen
  have hscan := b.archive.scan_singleton held.sender ⟨held.hash, held.encode⟩
  rw [hverdict] at hscan
  have hstatus : b.keyring.status = .started := congrArg Keyring.status hb.keyring
  have hcount : backend.ledgerSize.eval b = (.ok 1, b) := by
    show (Except.ok b.ledger.size, b) = _
    rw [hb.ledger]
    rfl
  have htarget : PublicKey.ofBase64 (ResendRequest.mk held.sender.toBase64 size).target = .ok held.sender :=
    PublicKey.ofBase64_toBase64 held.sender
  obtain ⟨batches, rest, b', heval, hpacked, hok, -⟩ :=
    (backend_over hstatus hb.keyed).resend ⟨rfl, rfl, rfl⟩ hcount htarget hsize
  rw [hrows, List.take_succ_cons, List.take_zero, hscan] at heval hpacked hok
  obtain ⟨-, hsent⟩ := hok rfl
  rw [hpacked.batched.eq_singleton hsize] at hsent
  exact ⟨b', heval, hsent⟩

end HasOnly

/-- A payload that affects nothing is a history by itself. -/
theorem history_sealFor : History (· ∈ [sealFor suite own fresh m R]) := by
  have hmem : ∀ q, q ∈ [sealFor suite own fresh m R] → q = sealFor suite own fresh m R := fun q => List.mem_singleton.1
  refine ⟨⟨_, List.mem_singleton_self _⟩, ?_, ?_, ?_, ?_⟩
  · intro q hq h hh
    rw [hmem q hq] at hh
    exact nomatch hh
  · refine History.acyclic_of_rank (fun _ => 0) fun q hq h hh => ?_
    rw [hmem q hq] at hh
    exact nomatch hh
  · intro q hq r hr _
    rw [hmem q hq, hmem r hr]
  · intro q hq hmode
    rw [hmem q hq] at hmode
    exact nomatch hmode

/-- With or without its key a stored view leaves room for the key. -/
theorem HasOnly.storable (hb : b.HasOnly suite peer held)
    (hheld : held = sealFor suite own fresh m [suite.publicOf peer] ∨
      held = { sealFor suite own fresh m [suite.publicOf peer] with recipients := [] }) :
    Storable (sealFor suite own fresh m [suite.publicOf peer]) := by
  have hlen : (sealFor suite own fresh m [suite.publicOf peer]).encode.length ≤ held.encode.length + 32 := by
    rcases hheld with rfl | rfl
    · exact Nat.le_add_right _ _
    · rw [Payload.length_encode, Payload.length_encode]
      exact Nat.le_of_eq rfl
  have hroom := hb.length_encode_lt
  have hfit : (sealFor suite own fresh m [suite.publicOf peer]).encode.length < addressable := by omega
  exact ⟨Payload.fits_of_length_lt (lt_size_of_lt_addressable hfit), hfit⟩

/-- A sender over empty stores is given back what it has lost by a recipient that has nothing but its own view,
with or without its key. It pushes what the event carries, stages and commits the view as it comes, and opens it. -/
theorem sender_recovers (hs : suite.Inverts) (hagree : suite.Agreeing own peer)
    (hne : suite.publicOf peer ≠ suite.publicOf own) (hpeer : suite.publicOf peer ∈ R)
    (ha : a.keyring.Owns suite own) (hledger : a.ledger = .empty) (harea : a.area = .empty)
    (hp : a.keyring.encryptPayload fresh m (suite.publicOf own) R = .ok p)
    (hview : p.forRecipient (suite.publicOf peer) = .ok view)
    (hheld : held = view ∨ held = { view with recipients := [] }) (hb : b.HasOnly suite peer held)
    {size : Nat} (hsize : 1 ≤ size) :
    ∃ b' a₁ a₂ t a₃ box, (resend ⟨(suite.publicOf own).toBase64, size⟩).eval b = (.ok 1, b') ∧
      b'.events = b.events ++ [.outboundBatch (suite.publicOf own).toBase64 [Hex.encode view.encode]] ∧
      PushBody.decode ⟨[Hex.encode view.encode]⟩ = .ok [view.encode] ∧
      (push [view.encode]).eval a = (.ok (), a₁) ∧ stage.eval a₁ = (.ok .success, a₂) ∧
      sync.eval a₂ = (.ok t, a₃) ∧ t.outcome = .success ∧ a₃.ledger.payload? p.hash = .ok (some view) ∧
      view.recipients = [suite.publicOf peer] ∧ p.boxOf? (suite.publicOf peer) = some box ∧ view.boxes = [box] ∧
      a₃.keyring.openPayload view (suite.publicOf own) = .ok m := by
  cases (ha.encryptPayload fresh m R).symm.trans hp
  cases (Keyring.forRecipient_sealFor hpeer).symm.trans hview
  have hstorable := hb.storable hheld
  -- the recipient opens what it holds, and gives it back under its key
  have hpeer' : b.keyring.Owns suite peer := hb.keyring ▸ Keyring.owns_ofSecrets suite peer
  have hopen : b.keyring.openPayload held (suite.publicOf peer) = .ok m := by
    rcases hheld with rfl | rfl
    · exact Keyring.openPayload_recipient hs hpeer' hagree hne List.mem_cons_self
    · exact Keyring.openPayload_keyless hs hpeer' hagree hne
  have hsender : held.sender = suite.publicOf own := by
    rcases hheld with rfl | rfl <;> rfl
  obtain ⟨b', hresend, hevents⟩ := hb.eval_resend (hsender ▸ hne) hopen hsize
  rw [Keyring.withRecipient_sealFor held hheld, hsender] at hevents
  rw [hsender] at hresend
  -- the sender takes it in
  have hdistinct : [sealFor suite own fresh m [suite.publicOf peer]].Pairwise fun q r => q.hash ≠ r.hash :=
    List.pairwise_singleton _ _
  obtain ⟨a₁, a₂, t, area, metrics, hpush, hstage, hsync, ht⟩ := exists_recovered hledger harea history_sealFor
    (List.forall_mem_singleton.2 hstorable) hdistinct (by decide : 1 < addressable)
  have hstored : (Ledger.ofPayloads [sealFor suite own fresh m [suite.publicOf peer]]).Stores _ :=
    (Ledger.stores_ofPayloads hdistinct (List.forall_mem_singleton.2 hstorable.fits)
      (List.forall_mem_singleton.2 (lt_size_of_lt_addressable hstorable.length))).2 (List.mem_singleton_self _)
  exact ⟨b', a₁, a₂, t, _, _, hresend, hevents, PushBody.decode_encode [_], hpush, hstage, hsync, ht, hstored, rfl,
    Keyring.boxOf?_sealFor hpeer, rfl, Keyring.openPayload_sender hs ha (List.cons_ne_nil _ [])⟩

/-! ### A recipient that kept its view without the key -/

open CipherSuite (standard)
open Keyring (alice bob)

/-- What Alice wrote to Bob. -/
def sampleSent : Payload :=
  sealFor standard alice ⟨.replicate 32 7, .replicate 12 8, .replicate 12 9⟩ [1, 2, 3] [standard.publicOf bob]

def sampleKeeper : Node :=
  { Node.fresh "" .standard (.ofSecrets standard [bob]) with
    ledger := .ofPayloads [{ sampleSent with recipients := [] }] }

theorem hasOnly_sampleKeeper : sampleKeeper.HasOnly standard bob { sampleSent with recipients := [] } :=
  ⟨rfl, rfl, by decide +kernel⟩

theorem alice_recovers :
    sampleKeeper.HasOnly standard bob { sampleSent with recipients := [] } ∧
    ∃ (b' a₁ a₂ a₃ : Node) (t : Tally) (box : Bytes),
      (resend ⟨(standard.publicOf alice).toBase64, 10⟩).eval sampleKeeper = (.ok 1, b') ∧
      b'.events = sampleKeeper.events ++
        [.outboundBatch (standard.publicOf alice).toBase64 [Hex.encode sampleSent.encode]] ∧
      PushBody.decode ⟨[Hex.encode sampleSent.encode]⟩ = .ok [sampleSent.encode] ∧
      (push [sampleSent.encode]).eval (Node.fresh "" .standard (.ofSecrets standard [alice])) = (.ok (), a₁) ∧
      stage.eval a₁ = (.ok .success, a₂) ∧ sync.eval a₂ = (.ok t, a₃) ∧ t.outcome = .success ∧
      a₃.ledger.payload? sampleSent.hash = .ok (some sampleSent) ∧ sampleSent.recipients = [standard.publicOf bob] ∧
      sampleSent.boxOf? (standard.publicOf bob) = some box ∧ sampleSent.boxes = [box] ∧
      a₃.keyring.openPayload sampleSent (standard.publicOf alice) = .ok [1, 2, 3] := by
  have halice := Keyring.owns_ofSecrets standard alice
  have hbob : standard.publicOf bob ∈ [standard.publicOf bob] := List.mem_singleton_self _
  obtain ⟨b', a₁, a₂, t, a₃, box, h⟩ := sender_recovers CipherSuite.standard_inverts Keyring.agreeing_alice_bob
    Keyring.bob_ne_alice hbob (a := Node.fresh "" .standard (.ofSecrets standard [alice])) halice rfl rfl
    (halice.encryptPayload ⟨.replicate 32 7, .replicate 12 8, .replicate 12 9⟩ [1, 2, 3] [standard.publicOf bob])
    (Keyring.forRecipient_sealFor hbob) (.inr rfl) hasOnly_sampleKeeper (show 1 ≤ 10 by decide)
  exact ⟨hasOnly_sampleKeeper, b', a₁, a₂, a₃, t, box, h⟩

end Node

end TxRecovery
