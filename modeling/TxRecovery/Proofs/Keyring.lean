import TxRecovery.Keyring
import TxRecovery.Payload.View
import TxRecovery.Proofs.Cipher.Gcm
import TxRecovery.Proofs.Collections

/-!
# The parties of a payload open it

What `Keyring.encryptPayload` makes for some recipients, the sender's keyring and every recipient's keyring open,
as it is and narrowed to one recipient, and a recipient also without its key (`encryptPayload_opens`). All that
is asked of the cipher suite is that decryption undoes encryption, and that sender and recipient agree on the
same secret. A view of a sealed payload is the payload sealed for that recipient alone (`forRecipient_sealFor`), so
that there is one kind of payload to open, by three rules: through any box as the sender (`openPayload_sender`),
through the listed box (`openPayload_recipient`) and through a box without a key (`openPayload_keyless`).
-/

namespace TxRecovery

namespace CipherSuite

/-- What is encrypted decrypts to the plaintext, under the same key and nonce. -/
def Inverts (suite : CipherSuite) : Prop := ∀ k n m, suite.decrypt? k n (suite.encrypt k n m) = some m

/-- Each party computes the same secret from its own and the other's public key. -/
def Agreeing (suite : CipherSuite) (a b : Block 32) : Prop :=
  suite.agree a (suite.publicOf b) = suite.agree b (suite.publicOf a)

theorem standard_inverts : standard.Inverts := Gcm.decrypt?_encrypt

variable {suite : CipherSuite}

theorem Inverts.openSealed (hs : suite.Inverts) (key : Block 32) (nonce : Block 12) (m : Bytes) :
    suite.openSealed key nonce (suite.encrypt key nonce m) = .ok m := by
  rw [CipherSuite.openSealed, hs]

theorem Inverts.openMasterKey (hs : suite.Inverts) (key : Block 32) (nonce : Block 12) (masterKey : Block 32) :
    suite.openMasterKey key nonce (suite.encrypt key nonce masterKey.toList) = .ok masterKey := by
  simp only [CipherSuite.openMasterKey, hs.openSealed, bind, Except.bind, Block.ofBytes?_toList]

end CipherSuite

theorem Payload.boxOf?_map {p : Payload} {box : PublicKey → Bytes} (hboxes : p.boxes = p.recipients.map box)
    {k : PublicKey} (hk : k ∈ p.recipients) : p.boxOf? k = some (box k) := by
  have hfound : (p.recipients.findIdx? (· == k)).isSome := by
    rw [List.findIdx?_isSome, List.any_eq_true]
    exact ⟨k, hk, beq_self_eq_true k⟩
  obtain ⟨i, hi⟩ := Option.isSome_iff_exists.1 hfound
  obtain ⟨hlt, hik, -⟩ := List.findIdx?_eq_some_iff_getElem.1 hi
  rw [boxOf?, hi]
  simp only [hboxes, List.getElem?_map, List.getElem?_eq_getElem hlt, Option.map_some, beq_iff_eq.1 hik]

namespace Keyring

variable {ring : Keyring} {suite : CipherSuite} {a b : Block 32} {fresh : Entropy} {m : Bytes}
  {R : List PublicKey} {k : PublicKey}

/-- A started keyring with the key of this secret. -/
structure Owns (ring : Keyring) (suite : CipherSuite) (secret : Block 32) : Prop where
  suite_eq : ring.suite = suite
  started : ring.status = .started
  owned : ring.secrets.get? (suite.publicOf secret) = some secret

theorem owns_ofSecrets (suite : CipherSuite) (secret : Block 32) : (ofSecrets suite [secret]).Owns suite secret :=
  ⟨rfl, rfl, SortedMap.get?_insert_self _ _ _⟩

theorem Owns.secretOf (h : ring.Owns suite a) : ring.secretOf (suite.publicOf a) = .ok a := by
  simp only [Keyring.secretOf, h.started, h.owned]

theorem Owns.openPayload (h : ring.Owns suite a) (p : Payload) : ring.openPayload p (suite.publicOf a) =
    ring.openThrough p a (suite.publicOf a) (candidates p (suite.publicOf a)) := by
  simp only [Keyring.openPayload, h.secretOf, bind, Except.bind]

/-! ### Sealed payloads -/

/-- The box in which the owner of `a` seals the master key for `k`. -/
def boxTo (suite : CipherSuite) (a : Block 32) (fresh : Entropy) (k : PublicKey) : Bytes :=
  suite.encrypt (suite.boxKey (suite.agree a k) (suite.publicOf a) k) fresh.boxNonce fresh.masterKey.toList

/-- The payload of the owner of `a`, sealed for these recipients. -/
def sealFor (suite : CipherSuite) (a : Block 32) (fresh : Entropy) (m : Bytes) (recipients : List PublicKey) :
    Payload where
  sender := suite.publicOf a
  ciphertext := suite.encrypt fresh.masterKey fresh.cipherNonce m
  cipherNonce := fresh.cipherNonce
  boxes := recipients.map (boxTo suite a fresh)
  boxNonce := fresh.boxNonce
  recipients
  mode := .standard
  affected := .empty
  execHash := []

theorem Owns.encryptPayload (h : ring.Owns suite a) (fresh : Entropy) (m : Bytes) (R : List PublicKey) :
    ring.encryptPayload fresh m (suite.publicOf a) R = .ok (sealFor suite a fresh m R) := by
  simp only [Keyring.encryptPayload, h.secretOf, bind, Except.bind, pairKey, h.suite_eq]
  rfl

theorem boxOf?_sealFor (hk : k ∈ R) : (sealFor suite a fresh m R).boxOf? k = some (boxTo suite a fresh k) :=
  Payload.boxOf?_map rfl hk

/-- A view of a sealed payload is sealed for its recipient alone. -/
theorem forRecipient_sealFor (hk : k ∈ R) :
    (sealFor suite a fresh m R).forRecipient k = .ok (sealFor suite a fresh m [k]) := by
  rw [Payload.forRecipient, boxOf?_sealFor hk]
  rfl

/-! ### Opening -/

theorem candidates_sender (p : Payload) : candidates p p.sender = p.boxes.zip p.recipients := if_pos rfl

theorem candidates_of_boxOf? {p : Payload} {box : Bytes} (hsender : p.sender ≠ k) (hbox : p.boxOf? k = some box) :
    candidates p k = [(box, p.sender)] := by
  rw [candidates, if_neg hsender, hbox]

theorem candidates_of_unboxed {p : Payload} (hsender : p.sender ≠ k) (hnone : p.boxOf? k = none) :
    candidates p k = p.boxes.map (·, p.sender) := by
  rw [candidates, if_neg hsender, hnone]

theorem openThrough_congr {p q : Payload} (hbox : p.boxNonce = q.boxNonce) (hnonce : p.cipherNonce = q.cipherNonce)
    (hcipher : p.ciphertext = q.ciphertext) (secret : Block 32) (ours : PublicKey) (cs : List (Bytes × PublicKey)) :
    ring.openThrough p secret ours cs = ring.openThrough q secret ours cs := by
  induction cs with
  | nil => rfl
  | cons c cs ih => simp only [openThrough, hbox, hnonce, hcipher, ih]

/-- Of keys and boxes a keyring looks at the candidates only. -/
theorem openPayload_of_candidates {p q : Payload} (hbox : p.boxNonce = q.boxNonce)
    (hnonce : p.cipherNonce = q.cipherNonce) (hcipher : p.ciphertext = q.ciphertext)
    (hc : candidates p k = candidates q k) : ring.openPayload p k = ring.openPayload q k := by
  unfold Keyring.openPayload
  rw [hc]
  exact congrArg (ring.secretOf k >>= ·) (funext fun secret => openThrough_congr hbox hnonce hcipher secret k _)

/-- The first box that gives a master key decides. -/
theorem openThrough_cons {p : Payload} {secret masterKey : Block 32} {ours theirs : PublicKey} {box : Bytes}
    (rest : List (Bytes × PublicKey))
    (h : ring.suite.openMasterKey (ring.pairKey secret ours theirs) p.boxNonce box = .ok masterKey) :
    ring.openThrough p secret ours ((box, theirs) :: rest) =
      (ring.suite.openSealed masterKey p.cipherNonce p.ciphertext).mapError .crypto := by
  simp only [openThrough, h]

/-- A payload with the master key of `fresh` in its first candidate box opens. -/
theorem Owns.openThrough (h : ring.Owns suite b) (hs : suite.Inverts) {p : Payload} {box : Bytes}
    {theirs : PublicKey} (rest : List (Bytes × PublicKey))
    (hcipher : p.ciphertext = suite.encrypt fresh.masterKey fresh.cipherNonce m)
    (hcipherNonce : p.cipherNonce = fresh.cipherNonce) (hboxNonce : p.boxNonce = fresh.boxNonce)
    (hbox : box = suite.encrypt (suite.boxKey (suite.agree b theirs) (suite.publicOf b) theirs) fresh.boxNonce
      fresh.masterKey.toList) :
    ring.openThrough p b (suite.publicOf b) ((box, theirs) :: rest) = .ok m := by
  have hkey : ring.suite.openMasterKey (ring.pairKey b (suite.publicOf b) theirs) p.boxNonce box =
      .ok fresh.masterKey := by
    rw [pairKey, h.suite_eq, hboxNonce, hbox, hs.openMasterKey]
  rw [openThrough_cons rest hkey, h.suite_eq, hcipherNonce, hcipher, hs.openSealed]
  rfl

theorem openPayload_sender (hs : suite.Inverts) (h : ring.Owns suite a) (hR : R ≠ []) :
    ring.openPayload (sealFor suite a fresh m R) (suite.publicOf a) = .ok m := by
  obtain ⟨k, R, rfl⟩ := List.exists_cons_of_ne_nil hR
  have hcandidates : candidates (sealFor suite a fresh m (k :: R)) (suite.publicOf a) =
      (boxTo suite a fresh k, k) :: (R.map (boxTo suite a fresh)).zip R := candidates_sender _
  rw [h.openPayload, hcandidates]
  exact h.openThrough hs _ rfl rfl rfl rfl

/-- What the sender sealed for the owner of `b`, the owner of `b` seals for the sender. -/
theorem boxTo_comm (hab : suite.Agreeing a b) (fresh : Entropy) :
    boxTo suite a fresh (suite.publicOf b) = boxTo suite b fresh (suite.publicOf a) := by
  rw [boxTo, boxTo, hab, suite.boxKey_comm]

theorem openPayload_recipient (hs : suite.Inverts) (h : ring.Owns suite b) (hab : suite.Agreeing a b)
    (hne : suite.publicOf b ≠ suite.publicOf a) (hb : suite.publicOf b ∈ R) :
    ring.openPayload (sealFor suite a fresh m R) (suite.publicOf b) = .ok m := by
  have hcandidates : candidates (sealFor suite a fresh m R) (suite.publicOf b) =
      [(boxTo suite a fresh (suite.publicOf b), suite.publicOf a)] :=
    candidates_of_boxOf? hne.symm (boxOf?_sealFor hb)
  rw [h.openPayload, hcandidates, boxTo_comm hab]
  exact h.openThrough hs _ rfl rfl rfl rfl

theorem openPayload_keyless (hs : suite.Inverts) (h : ring.Owns suite b) (hab : suite.Agreeing a b)
    (hne : suite.publicOf b ≠ suite.publicOf a) :
    ring.openPayload { sealFor suite a fresh m [suite.publicOf b] with recipients := [] } (suite.publicOf b) =
      .ok m := by
  have hcandidates : candidates { sealFor suite a fresh m [suite.publicOf b] with recipients := [] }
      (suite.publicOf b) = [(boxTo suite a fresh (suite.publicOf b), suite.publicOf a)] :=
    candidates_of_unboxed hne.symm rfl
  rw [h.openPayload, hcandidates, boxTo_comm hab]
  exact h.openThrough hs _ rfl rfl rfl rfl

/-- Sealing succeeds, and every party opens what it is given: a recipient the payload, its view and its view
without a key; the sender the payload and the view of every recipient, itself among them or not. -/
theorem encryptPayload_opens (hs : suite.Inverts) (hsender : ring.Owns suite a) (fresh : Entropy) (m : Bytes)
    (R : List PublicKey) :
    ∃ p, ring.encryptPayload fresh m (suite.publicOf a) R = .ok p ∧
      (∀ b, suite.publicOf b ∈ R → suite.publicOf b ≠ suite.publicOf a → suite.Agreeing a b →
        ∃ view, p.forRecipient (suite.publicOf b) = .ok view ∧ ∀ other : Keyring, other.Owns suite b →
          other.openPayload p (suite.publicOf b) = .ok m ∧ other.openPayload view (suite.publicOf b) = .ok m ∧
          other.openPayload { view with recipients := [] } (suite.publicOf b) = .ok m) ∧
      ∀ k ∈ R, ∃ view, p.forRecipient k = .ok view ∧ ∀ own : Keyring, own.Owns suite a →
        own.openPayload p (suite.publicOf a) = .ok m ∧ own.openPayload view (suite.publicOf a) = .ok m := by
  refine ⟨_, hsender.encryptPayload fresh m R, fun b hb hne hab => ?_, fun k hk => ?_⟩
  · refine ⟨_, forRecipient_sealFor hb, fun other h => ⟨?_, ?_, ?_⟩⟩
    · exact openPayload_recipient hs h hab hne hb
    · exact openPayload_recipient hs h hab hne List.mem_cons_self
    · exact openPayload_keyless hs h hab hne
  · refine ⟨_, forRecipient_sealFor hk, fun own h => ⟨?_, ?_⟩⟩
    · exact openPayload_sender hs h (List.ne_nil_of_mem hk)
    · exact openPayload_sender hs h (List.cons_ne_nil k [])

/-! ### Two parties of the standard suite -/

/-- The secrets of two parties. -/
def alice : Block 32 := .replicate 32 1
def bob : Block 32 := .replicate 32 2

theorem agreeing_alice_bob : CipherSuite.standard.Agreeing alice bob := by
  unfold CipherSuite.Agreeing
  decide +kernel

theorem bob_ne_alice : CipherSuite.standard.publicOf bob ≠ CipherSuite.standard.publicOf alice := by
  decide +kernel

open CipherSuite in
/-- Alice writes to Bob, to herself and to Bob again. -/
theorem alice_bob_open : standard.Inverts ∧ (ofSecrets standard [alice]).Owns standard alice ∧
    standard.publicOf bob ≠ standard.publicOf alice ∧ standard.Agreeing alice bob ∧
    ∃ p, (ofSecrets standard [alice]).encryptPayload ⟨.replicate 32 7, .replicate 12 8, .replicate 12 9⟩ [1, 2, 3]
        (standard.publicOf alice) [standard.publicOf bob, standard.publicOf alice, standard.publicOf bob] = .ok p ∧
      (∃ view, p.forRecipient (standard.publicOf bob) = .ok view ∧
        (ofSecrets standard [bob]).openPayload p (standard.publicOf bob) = .ok [1, 2, 3] ∧
        (ofSecrets standard [bob]).openPayload view (standard.publicOf bob) = .ok [1, 2, 3] ∧
        (ofSecrets standard [bob]).openPayload { view with recipients := [] } (standard.publicOf bob) = .ok [1, 2, 3]) ∧
      ∃ view, p.forRecipient (standard.publicOf alice) = .ok view ∧
        (ofSecrets standard [alice]).openPayload p (standard.publicOf alice) = .ok [1, 2, 3] ∧
        (ofSecrets standard [alice]).openPayload view (standard.publicOf alice) = .ok [1, 2, 3] := by
  have halice := owns_ofSecrets standard alice
  obtain ⟨p, hp, hothers, hown⟩ := encryptPayload_opens standard_inverts halice
    ⟨.replicate 32 7, .replicate 12 8, .replicate 12 9⟩ [1, 2, 3]
    [standard.publicOf bob, standard.publicOf alice, standard.publicOf bob]
  obtain ⟨view, hview, hopen⟩ := hothers bob (by simp) bob_ne_alice agreeing_alice_bob
  obtain ⟨self, hself, hread⟩ := hown (standard.publicOf alice) (by simp)
  exact ⟨standard_inverts, halice, bob_ne_alice, agreeing_alice_bob, p, hp,
    ⟨view, hview, hopen _ (owns_ofSecrets standard bob)⟩, self, hself, hread _ halice⟩

end Keyring

end TxRecovery
