import TxRecovery.Api.Messages
import TxRecovery.Proofs.Node.Delivery
import TxRecovery.Proofs.Node.Resend

/-!
# Recovery from end to end

A node that has lost everything asks another one that `Restores` it, and pushes what it reads from the events of that
node. Whatever the size of the batches and in whatever order they arrive, after a staging pass and a synchronisation it
has exactly the payloads that list it, each as its sender gives it out (`resend_recovers`).
-/

namespace TxRecovery

theorem PushBody.decode_hex (raws : List Bytes) : PushBody.decode ⟨raws.map Hex.encode⟩ = .ok raws := by
  have hall : raws.mapM (fun raw => Hex.decode (Utf8.encode (Hex.encode raw))) = .ok (raws.map id) :=
    mapM_eq_ok fun raw _ => Hex.decode_encode raw
  rw [List.map_id] at hall
  rw [PushBody.decode, List.mapM_map]
  exact hall

theorem PushBody.decode_encode (views : List Payload) :
    PushBody.decode ⟨views.map fun v => Hex.encode v.encode⟩ = .ok (views.map Payload.encode) := by
  have h := PushBody.decode_hex (views.map Payload.encode)
  rwa [List.map_map] at h

/-- In whatever order the lists of some batches come, each is read back as the views that it was made from. -/
theorem PushBody.exists_decoded {views : List (List Payload)} {order : List (List String)}
    (horder : order.Perm (views.map fun qs => qs.map fun q => Hex.encode q.encode)) :
    ∃ arrived : List (List Payload), arrived.Perm views ∧
      order.mapM (fun payloads => PushBody.decode ⟨payloads⟩) = .ok (arrived.map (List.map Payload.encode)) := by
  have hread : List.Forall₂ (fun payloads qs => PushBody.decode ⟨payloads⟩ = .ok (qs.map Payload.encode))
      (views.map fun qs => qs.map fun q => Hex.encode q.encode) views :=
    List.forall₂_map_left_iff.2 (List.forall₂_same.2 fun qs _ => PushBody.decode_encode qs)
  obtain ⟨arrived, harrived, hperm⟩ := List.perm_comp_forall₂ horder hread
  exact ⟨arrived, hperm, mapM_eq_ok_iff.2 (List.forall₂_map_right_iff.2 harrived)⟩

namespace Node

variable {a b : Node} {target : PublicKey}

theorem Restores.storable (ha : a.Restores target) : ∀ q ∈ a.viewsFor target, Storable q := by
  intro q hq
  obtain ⟨p, hlists, -, hnarrow⟩ := ha.mem_viewsFor.1 hq
  obtain ⟨t, ht, hp⟩ := ha.keyed.mem_of_stores hlists.1
  obtain ⟨v, hv, hraw⟩ := ha.keyed.exists_length_raw_le ht
  have hle : q.encode.length ≤ v.length :=
    Nat.le_trans hnarrow.length_le (Nat.le_trans (Payload.length_encode_le hp) hraw)
  exact ⟨hnarrow.fits (Payload.fits_of_decode hp), Nat.lt_of_le_of_lt hle (ha.fits.value v hv)⟩

/-- A node over empty stores recovers every payload that lists it from the events of one that has sent all it stores. -/
theorem resend_recovers (ha : a.Restores target) (hledger : b.ledger = .empty) (harea : b.area = .empty)
    {size : Nat} (hsize : 1 ≤ size) :
    ∃ (told : List (List String)) (a' : Node),
      (resend ⟨target.toBase64, size⟩).eval a = (.ok a.ledger.size, a') ∧
      a'.events = a.events ++ told.map (.outboundBatch target.toBase64) ∧
      ∀ order : List (List String), order.Perm told → ∃ batches b₁ b₂ t b₃,
        order.mapM (fun payloads => PushBody.decode ⟨payloads⟩) = .ok batches ∧
        (batches.forM push).eval b = (.ok (), b₁) ∧ stage.eval b₁ = (.ok .success, b₂) ∧
        sync.eval b₂ = (.ok t, b₃) ∧ t.outcome = .success ∧
        ∀ k v, b₃.ledger.tree.get? k = some v ↔
          ∃ p q, a.ledger.Lists target p ∧ p.viewFor target = .ok q ∧ k = p.hash.bytes ∧
            v = StoredTx.format.write ⟨p.hash, q.encode⟩ := by
  obtain ⟨views, a', heval, hevents, hflatten⟩ := ha.eval_resend hsize
  have htold : views.map (outbound · target) =
      (views.map fun qs => qs.map fun q => Hex.encode q.encode).map (.outboundBatch target.toBase64) :=
    List.map_map.symm
  refine ⟨_, a', heval, htold ▸ hevents, fun order horder => ?_⟩
  obtain ⟨arrived, hviews, hdecode⟩ := PushBody.exists_decoded horder
  -- in any order the batches have the same views
  have hperm : arrived.flatten.Perm (a.viewsFor target) := hflatten ▸ hviews.flatten
  have hmem : ∀ q, q ∈ arrived.flatten ↔ q ∈ a.viewsFor target := fun q => hperm.mem_iff
  have hne : arrived.flatten.Pairwise fun q r => q.hash ≠ r.hash :=
    (hperm.pairwise_iff fun h => h.symm).2 ha.pairwise_viewsFor
  have hh : History (· ∈ arrived.flatten) := by
    simp only [hmem]
    exact ha.history_viewsFor
  have hqs : ∀ q ∈ arrived.flatten, Storable q := fun q hq => ha.storable q ((hmem q).1 hq)
  have hlen : arrived.flatten.length < addressable := hperm.length_eq ▸ ha.length_viewsFor
  obtain ⟨b₁, b₂, t, b₃, hpush, hstage, hsync, ht, hb⟩ := eval_recovery hledger harea hh hqs hne hlen
  rw [List.map_flatten, ← forM_push] at hpush
  refine ⟨_, b₁, b₂, t, b₃, hdecode, hpush, hstage, hsync, ht, fun k v => ?_⟩
  rw [hb, Ledger.get?_ofPayloads hne]
  constructor
  · rintro ⟨q, hq, rfl, rfl⟩
    obtain ⟨p, hlists, hview, hnarrow⟩ := ha.mem_viewsFor.1 ((hmem q).1 hq)
    exact ⟨p, q, hlists, hview, by rw [hnarrow.hash], by rw [hnarrow.hash]⟩
  · rintro ⟨p, q, hlists, hview, rfl, rfl⟩
    obtain ⟨q', hview', hnarrow⟩ := Payload.exists_viewFor (ha.boxes p hlists) hlists.2
    cases hview.symm.trans hview'
    have hq := (hmem q).2 (ha.mem_viewsFor.2 ⟨p, hlists, hview, hnarrow⟩)
    exact ⟨q, hq, by rw [hnarrow.hash], by rw [hnarrow.hash]⟩

/-- `samplePayloads` and a standard private payload. -/
def sampleHistory : List Payload :=
  { samplePayloads.getD 1 default with ciphertext := [3], mode := .standard } :: samplePayloads

/-- The sender of `sampleHistory`. -/
def sampleSender : Node :=
  { fresh "" .standard ⟨.standard, .started, .ofList [(⟨.replicate 32 1⟩, default)]⟩ with
    ledger := .ofPayloads sampleHistory }

theorem decode_sampleHistory : ∀ p ∈ sampleHistory, Payload.decode p.encode = .ok p := by decide +kernel

theorem fits_sampleHistory : ∀ p ∈ sampleHistory, p.Fits := fun p hp => Payload.fits_of_decode (decode_sampleHistory p hp)

theorem length_sampleHistory : ∀ p ∈ sampleHistory, p.encode.length < UInt64.size := by decide +kernel

theorem hash_ne_sampleHistory : sampleHistory.Pairwise fun p q => p.hash ≠ q.hash := by decide +kernel

theorem stores_sampleSender (p : Payload) : sampleSender.ledger.Stores p ↔ p ∈ sampleHistory :=
  Ledger.stores_ofPayloads hash_ne_sampleHistory fits_sampleHistory length_sampleHistory

theorem lists_sampleSender (p : Payload) : sampleSender.ledger.Lists ⟨.replicate 32 3⟩ p ↔ p ∈ sampleHistory := by
  have hall : ∀ p ∈ sampleHistory, (⟨.replicate 32 3⟩ : PublicKey) ∈ p.recipients := by decide +kernel
  rw [Ledger.Lists, stores_sampleSender]
  exact ⟨fun h => h.1, fun h => ⟨h, hall p h⟩⟩

theorem restores_sampleSender : sampleSender.Restores ⟨.replicate 32 3⟩ := by
  refine ⟨rfl, by decide +kernel,
    Ledger.keyed_ofPayloads hash_ne_sampleHistory fits_sampleHistory length_sampleHistory, ?_, ?_, ?_⟩
  · simp only [stores_sampleSender]
    decide +kernel
  · simp only [lists_sampleSender]
    decide +kernel
  · have heq : sampleSender.ledger.Lists ⟨.replicate 32 3⟩ = (· ∈ sampleHistory) := funext fun p =>
      propext (lists_sampleSender p)
    rw [heq]
    refine ⟨⟨_, List.mem_cons_self⟩, by decide +kernel, ?_, by decide +kernel, by decide +kernel⟩
    -- only the first of `samplePayloads` affects another one
    exact History.acyclic_of_rank (fun h => if h = (samplePayloads.getD 0 default).hash then 1 else 0)
      (by decide +kernel)

theorem resend_recovers_sample :
    ∃ (told : List (List String)) (batches : List (List Bytes)) (a' b₁ b₂ b₃ : Node) (t : Tally),
      (resend ⟨(⟨.replicate 32 3⟩ : PublicKey).toBase64, 2⟩).eval sampleSender = (.ok 3, a') ∧
      a'.events = told.map (.outboundBatch (⟨.replicate 32 3⟩ : PublicKey).toBase64) ∧
      told.reverse.mapM (fun payloads => PushBody.decode ⟨payloads⟩) = .ok batches ∧
      (batches.forM push).eval (fresh "" .standard ⟨.standard, .stopped, .empty⟩) = (.ok (), b₁) ∧
      stage.eval b₁ = (.ok .success, b₂) ∧ sync.eval b₂ = (.ok t, b₃) ∧ t.outcome = .success ∧
      ∀ p ∈ sampleHistory, ∃ q, p.viewFor ⟨.replicate 32 3⟩ = .ok q ∧
        b₃.ledger.tree.get? p.hash.bytes = some (StoredTx.format.write ⟨p.hash, q.encode⟩) := by
  obtain ⟨told, a', heval, hevents, hdeliver⟩ :=
    resend_recovers restores_sampleSender (b := fresh "" .standard ⟨.standard, .stopped, .empty⟩) rfl rfl
      (show 1 ≤ 2 by decide)
  have hsize : sampleSender.ledger.size = 3 := by decide +kernel
  rw [hsize] at heval
  obtain ⟨batches, b₁, b₂, t, b₃, hdecode, hpush, hstage, hsync, ht, hb⟩ := hdeliver _ told.reverse_perm
  refine ⟨told, batches, a', b₁, b₂, b₃, t, heval, hevents, hdecode, hpush, hstage, hsync, ht, fun p hp => ?_⟩
  have hlists := (lists_sampleSender p).2 hp
  obtain ⟨q, hview, -⟩ := Payload.exists_viewFor (restores_sampleSender.boxes p hlists) hlists.2
  exact ⟨q, hview, (hb _ _).2 ⟨p, q, hlists, hview, rfl, rfl⟩⟩

end Node

end TxRecovery
