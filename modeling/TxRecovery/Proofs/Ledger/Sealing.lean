import TxRecovery.Proofs.Keyring
import TxRecovery.Proofs.Ledger.Joining

/-!
# Whose seal the boxes are under

A payload names one sender and one nonce for all its boxes, and every box is opened with these (its `Seal`). A merge
takes boxes from a view and leaves the seal of the view behind, so that the payload keeps its own and the new boxes are
held to it (`Payload.KeepsSeal`). The commit of a view of a stored payload does not depend on the seal of the view
(`Ledger.commit_withSeal`). So a box that was made under another one is merged like any other, and its owner opens it
with a sender or a nonce that it was not made for (`Ledger.commit_keeps_seal`, `Ledger.merge_mixes_seals`).

Every stored box is under the seal of its row if all views of a transaction were made under one seal
(`Ledger.wellSealed_ofCommits`).
-/

namespace TxRecovery

/-- What a payload says of how its boxes and its ciphertext were sealed. -/
structure Seal where
  sender : PublicKey
  cipherNonce : Block 12
  boxNonce : Block 12
deriving DecidableEq

/-- The box was made by the sender, for somebody, under the nonce for boxes. -/
def Seal.Closes (s : Seal) (suite : CipherSuite) (box : Bytes) : Prop :=
  ∃ (a : Block 32) (masterKey : Block 32) (k : PublicKey), suite.publicOf a = s.sender ∧
    box = Keyring.boxTo suite a ⟨masterKey, s.cipherNonce, s.boxNonce⟩ k

namespace Payload

variable {p q s v : Payload} {k : PublicKey} {b : Bytes} {suite : CipherSuite}

def sealing (p : Payload) : Seal := ⟨p.sender, p.cipherNonce, p.boxNonce⟩

/-- The same payload under another seal. -/
def withSeal (p : Payload) (other : Seal) : Payload :=
  { p with sender := other.sender, cipherNonce := other.cipherNonce, boxNonce := other.boxNonce }

/-- Every box was sealed as the payload says. -/
def Sealed (p : Payload) (suite : CipherSuite) : Prop := ∀ b ∈ p.boxes, p.sealing.Closes suite b

/-- What a keyring makes is sealed. -/
theorem sealed_of_encryptPayload {ring : Keyring} {a : Block 32} {fresh : Keyring.Entropy} {m : Bytes}
    {R : List PublicKey} (hring : ring.Owns suite a)
    (hp : ring.encryptPayload fresh m (suite.publicOf a) R = .ok p) : p.Sealed suite := by
  rw [hring.encryptPayload] at hp
  cases hp
  intro b hb
  obtain ⟨k, -, rfl⟩ := List.mem_map.1 hb
  exact ⟨a, fresh.masterKey, k, rfl, rfl⟩

theorem Extends.sealing (h : p.Extends q) : q.sealing = p.sealing := by
  obtain ⟨rs, bs, rfl⟩ := h
  rfl

/-! ### Merging -/

theorem sealing_mergeRecipients (s v : Payload) : (s.mergeRecipients v).sealing = s.sealing :=
  (extends_mergeRecipients s v).sealing

theorem newcomers_eq_nil {known : List PublicKey} {es : List (PublicKey × Bytes)} :
    newcomers known es = [] ↔ ∀ e ∈ es, e.1 ∈ known := by
  induction es generalizing known with
  | nil => exact iff_of_true rfl (List.forall_mem_nil _)
  | cons e es ih =>
    rw [newcomers, List.forall_mem_cons]
    split
    · rw [ih, and_iff_right ‹_›]
    · exact iff_of_false (List.cons_ne_nil _ _) fun h => absurd h.1 ‹_›

/-- A view changes the payload if it has a box for somebody who is not listed. -/
theorem mergeRecipients_ne_iff :
    s.mergeRecipients v ≠ s ↔ ∃ e ∈ v.recipients.zip v.boxes, e.1 ∉ s.recipients := by
  have hsame : s.mergeRecipients v = s ↔ s.joining v = [] := by
    constructor
    · intro h
      have hlength := congrArg (List.length ∘ Payload.recipients) h
      simpa [mergeRecipients_eq] using hlength
    · intro h
      simp [mergeRecipients_eq, h]
  rw [Ne, hsame, joining, newcomers_eq_nil]
  simp only [not_forall, exists_prop]

/-- The boxes that a merge adds are held to the seal of the payload that they come to. -/
theorem sealed_mergeRecipients : (s.mergeRecipients v).Sealed suite ↔
    s.Sealed suite ∧ ∀ e ∈ s.joining v, s.sealing.Closes suite e.2 := by
  rw [Sealed, sealing_mergeRecipients, mergeRecipients_eq]
  simp only [List.forall_mem_append, List.forall_mem_map]
  rfl

theorem mem_boxes_of_joining {e : PublicKey × Bytes} (he : e ∈ s.joining v) : e.2 ∈ v.boxes :=
  (List.of_mem_zip ((newcomers_sublist _ _).subset he)).2

theorem Sealed.merge (hs : s.Sealed suite) (hv : v.Sealed suite) (hseal : v.sealing = s.sealing) :
    (s.mergeRecipients v).Sealed suite :=
  sealed_mergeRecipients.2 ⟨hs, fun _ he => hseal ▸ hv _ (mem_boxes_of_joining he)⟩

end Payload

/-! ### Opening -/

namespace Keyring

variable {ring : Keyring} {p q : Payload} {k : PublicKey} {b : Bytes}

/-- A recipient makes the same of two payloads under one seal that list one box for it. -/
theorem openPayload_congr (hseal : p.sealing = q.sealing) (hcipher : p.ciphertext = q.ciphertext) (hk : k ≠ q.sender)
    (hp : p.boxOf? k = some b) (hq : q.boxOf? k = some b) : ring.openPayload p k = ring.openPayload q k := by
  have hsender : p.sender = q.sender := congrArg Seal.sender hseal
  have hcandidates : candidates p k = candidates q k := by
    rw [candidates_of_boxOf? (hsender ▸ hk.symm) hp, candidates_of_boxOf? hk.symm hq, hsender]
  exact openPayload_of_candidates (congrArg Seal.boxNonce hseal) (congrArg Seal.cipherNonce hseal) hcipher hcandidates

end Keyring

/-- `q` is `s` with boxes of `v` in addition, under the seal of `s`: what that means for the boxes and their owners. -/
structure Payload.KeepsSeal (s v q : Payload) : Prop where
  sealing : q.sealing = s.sealing
  changed : q ≠ s ↔ ∃ e ∈ v.recipients.zip v.boxes, e.1 ∉ s.recipients
  sealed : ∀ suite, q.Sealed suite ↔ s.Sealed suite ∧ ∀ e ∈ s.joining v, s.sealing.Closes suite e.2
  /-- Who had a box opens the payload as before. -/
  kept : ∀ (ring : Keyring) k b, k ≠ s.sender → s.boxOf? k = some b → ring.openPayload q k = ring.openPayload s k
  /-- Who joined opens it as it would open the view, had that been under the seal of `s`. -/
  joined : s.recipients.length = s.boxes.length → s.ciphertext = v.ciphertext → ∀ (ring : Keyring) k b,
    k ≠ s.sender → s.boxOf? k = none → v.boxOf? k = some b →
      ring.openPayload q k = ring.openPayload (v.withSeal s.sealing) k

theorem Payload.keepsSeal_mergeRecipients (s v : Payload) : s.KeepsSeal v (s.mergeRecipients v) where
  sealing := sealing_mergeRecipients s v
  changed := mergeRecipients_ne_iff
  sealed := fun _ => sealed_mergeRecipients
  kept := fun _ _ _ hk hb =>
    Keyring.openPayload_congr (sealing_mergeRecipients s v) (by rw [mergeRecipients_eq]) hk
      ((extends_mergeRecipients s v).boxOf? hb) hb
  joined := fun hlen hcipher _ k b hk hnone hb => by
    have hbox : (s.mergeRecipients v).boxOf? k = some b := by rw [boxOf?_merge hlen, hnone, hb, Option.none_or]
    exact Keyring.openPayload_congr (sealing_mergeRecipients s v) (by rw [mergeRecipients_eq]; exact hcipher) hk hbox hb

namespace Ledger

variable {l l' : Ledger} {raw raw' : Bytes} {s v p : Payload} {h : TxHash} {suite : CipherSuite} {of : TxHash → Seal}

/-- Over a stored payload a view is committed in the same way under any seal. -/
theorem commit_withSeal {other : Seal} (hv : Payload.decode raw = .ok v)
    (hv' : Payload.decode raw' = .ok (v.withSeal other)) (hs : l.payload? v.hash = .ok (some s)) :
    l.commit raw' = l.commit raw := by
  have hs' : l.payload? (v.withSeal other).hash = .ok (some s) := hs
  have hcheck : l.checkPrivacy (v.withSeal other) = l.checkPrivacy v := rfl
  simp only [Ledger.commit, hv, hv', hs, hs', hcheck, Except.mapError, bind, Except.bind]
  rfl

/-- Nothing is asked of the seal of a view that is merged into a stored payload. The payload keeps its own, whatever
the new boxes were sealed under; if that was the same, all boxes fit it. -/
theorem commit_keeps_seal (hv : Payload.decode raw = .ok v) (hs : l.payload? v.hash = .ok (some s))
    (hc : l.commit raw = .ok (h, l')) (hfit : FitsInMemory l'.tree) :
    h = v.hash ∧ (∃ q, l'.payload? h = .ok (some q) ∧ s.KeepsSeal v q ∧
      (v.sealing = s.sealing → ∀ suite, s.Sealed suite → v.Sealed suite → q.Sealed suite)) ∧
    ∀ other raw', Payload.decode raw' = .ok (v.withSeal other) → l.commit raw' = .ok (h, l') := by
  obtain ⟨hh, hq⟩ := payload?_of_commit hv hs hc hfit
  refine ⟨hh, ⟨_, hq, Payload.keepsSeal_mergeRecipients s v, fun hseal _ hs hv => hs.merge hv hseal⟩, ?_⟩
  intro other raw' hv'
  rw [commit_withSeal hv hv' hs, hc]

/-- A stored payload, and a view of it by another sender, under other nonces. -/
def sampleSealed : Payload := sampleStored [⟨.replicate 32 4⟩]

def sampleForeign : Payload := sampleJoining.withSeal ⟨⟨.replicate 32 7⟩, .replicate 12 8, .replicate 12 9⟩

def sealedLedger : Ledger := ofCommits [sampleSealed.encode]

def mixedLedger : Ledger := ofCommits [sampleSealed.encode, sampleForeign.encode]

theorem commit_sampleForeign : Payload.decode sampleForeign.encode = .ok sampleForeign ∧
    sealedLedger.payload? sampleForeign.hash = .ok (some sampleSealed) ∧
    sealedLedger.commit sampleForeign.encode = .ok (sampleForeign.hash, mixedLedger) ∧
    FitsInMemory mixedLedger.tree := by
  decide +kernel

theorem commit_keeps_seal_sample :
    (∃ q, mixedLedger.payload? sampleForeign.hash = .ok (some q) ∧ sampleSealed.KeepsSeal sampleForeign q) ∧
      sealedLedger.commit sampleJoining.encode = .ok (sampleForeign.hash, mixedLedger) := by
  obtain ⟨hv, hs, hc, hfit⟩ := commit_sampleForeign
  have hv' : Payload.decode sampleJoining.encode = .ok (sampleForeign.withSeal sampleJoining.sealing) := by
    decide +kernel
  obtain ⟨-, ⟨q, hq, hkeeps, -⟩, hany⟩ := commit_keeps_seal hv hs hc hfit
  exact ⟨⟨q, hq, hkeeps⟩, hany _ _ hv'⟩

/-- A view under another seal is merged all the same. -/
theorem merge_mixes_seals : ¬ ∀ (l : Ledger) (raw : Bytes) (s v : Payload) (h : TxHash) (l' : Ledger),
    Payload.decode raw = .ok v → l.payload? v.hash = .ok (some s) → l.commit raw = .ok (h, l') →
      FitsInMemory l'.tree → l'.payload? h ≠ l.payload? h →
        v.sender = s.sender ∧ v.cipherNonce = s.cipherNonce ∧ v.boxNonce = s.boxNonce := by
  intro hall
  obtain ⟨hv, hs, hc, hfit⟩ := commit_sampleForeign
  have hchanged : mixedLedger.payload? sampleForeign.hash ≠ sealedLedger.payload? sampleForeign.hash := by
    decide +kernel
  obtain ⟨hsender, -⟩ := hall _ _ _ _ _ _ hv hs hc hfit hchanged
  have hother : sampleForeign.sender ≠ sampleSealed.sender := by decide
  exact hother hsender

/-! ### Runs -/

/-- Every stored payload is under the seal of its hash, and so are its boxes. -/
def WellSealed (l : Ledger) (suite : CipherSuite) (of : TxHash → Seal) : Prop :=
  ∀ h s, l.payload? h = .ok (some s) → s.sealing = of h ∧ s.Sealed suite

theorem WellSealed.commit (hl : l.WellSealed suite of) (hsound : l.Sound) (hc : l.Committed raw p l')
    (hp : Payload.decode raw = .ok p) (hfit : FitsInMemory l'.tree) (hseal : p.sealing = of p.hash)
    (hsealed : p.Sealed suite) : l'.WellSealed suite of := by
  intro h q hq
  by_cases hh : h = p.hash
  · subst hh
    rcases hsound.payload?_cases p.hash with hnone | ⟨s, hs⟩
    · cases (hc.new hnone).symm.trans hq
      exact ⟨hseal, hsealed⟩
    · obtain ⟨-, hmerged⟩ := payload?_of_commit hp hs hc.commit hfit
      cases hmerged.symm.trans hq
      obtain ⟨hs_seal, hs_sealed⟩ := hl _ s hs
      exact ⟨(Payload.sealing_mergeRecipients s p).trans hs_seal, hs_sealed.merge hsealed (hseal.trans hs_seal.symm)⟩
  · rw [payload?_congr (hc.frame h hh)] at hq
    exact hl h q hq

/-- If every payload that came was sealed, and all under one seal that came for one transaction, then so is every
payload that is stored. -/
theorem wellSealed_ofCommits {raws : List Bytes} (hfit : FitsThroughout raws)
    (hraws : ∀ raw ∈ raws, ∀ p, Payload.decode raw = .ok p → p.sealing = of p.hash ∧ p.Sealed suite) :
    (ofCommits raws).WellSealed suite of := by
  refine (ofCommits_induct (P := fun raws l =>
    (∀ raw ∈ raws, ∀ p, Payload.decode raw = .ok p → p.sealing = of p.hash ∧ p.Sealed suite) → l.WellSealed suite of)
    (fun _ => nofun) (fun raws raw l hw h => hw fun r hr => h r (List.mem_append_left _ hr)) ?_ hfit).2 hraws
  intro raws raw p l' hl hw hc hp hfit hraws
  obtain ⟨hseal, hsealed⟩ := hraws raw (List.mem_append_right _ (List.mem_singleton_self raw)) p hp
  exact (hw fun r hr => hraws r (List.mem_append_left _ hr)).commit hl hc hp hfit hseal hsealed

end Ledger

end TxRecovery
