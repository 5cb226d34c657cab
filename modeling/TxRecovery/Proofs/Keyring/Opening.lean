import TxRecovery.Proofs.Keyring
import TxRecovery.Proofs.Payload.Merge

/-!
# Which box opens a payload

A keyring tries the candidate boxes of a payload in order, and the first that gives a master key decides, whatever
that key makes of the ciphertext (`openThrough_eq`).

To the sender every box with a key is a candidate. A box that does not open, or that holds no key, is passed over; one
that holds a wrong key ends the search, and hides the boxes behind it (`sender_opens`, `wrong_key_hides_boxes`).

To a recipient that is not listed every box is a candidate, and to one that is listed only the box in its place. So
to name the key of a recipient is to say which box is its own: if a box stands in the place that the key is given, it
is tried from then on and no other (`openPayload_place`), and it need not be the one that was sealed for the key
(`opens_named`, `naming_hides_box`).
-/

namespace TxRecovery

namespace Payload

variable {p : Payload} {k : PublicKey} {box : Bytes}

/-- The payload with one of its boxes alone, whosever it is. -/
def onlyBox (p : Payload) (box : Bytes) : Payload := { p with recipients := [], boxes := [box] }

theorem onlyBox_eq_self (hkeys : p.recipients = []) (hboxes : p.boxes = [box]) : p.onlyBox box = p := by
  cases p
  cases hkeys
  cases hboxes
  rfl

theorem boxOf?_of_not_mem (hk : k ∉ p.recipients) : p.boxOf? k = none := by
  rw [boxOf?, findIdx?_of_not_mem hk]

/-- A key that is named is given the place behind all others. -/
theorem boxOf?_withRecipient (hk : k ∉ p.recipients) :
    (p.withRecipient k).boxOf? k = p.boxes[p.recipients.length]? := by
  have hplace : (p.recipients ++ [k]).findIdx? (· == k) = some p.recipients.length := by
    rw [List.findIdx?_append, findIdx?_of_not_mem hk]
    simp
  rw [withRecipient_of_not_mem hk, boxOf?, hplace]

end Payload

namespace Keyring

open CipherSuite (standard)

variable {ring : Keyring} {p : Payload} {secret masterKey : Block 32} {ours k : PublicKey} {box m : Bytes} {i : Nat}

/-- The master key that a candidate gives to the owner of `secret`. -/
def masterKey? (ring : Keyring) (p : Payload) (secret : Block 32) (ours : PublicKey) (c : Bytes × PublicKey) :
    Option (Block 32) :=
  (ring.suite.openMasterKey (ring.pairKey secret ours c.2) p.boxNonce c.1).toOption

theorem masterKey?_eq_some {c : Bytes × PublicKey} : ring.masterKey? p secret ours c = some masterKey ↔
    ring.suite.openMasterKey (ring.pairKey secret ours c.2) p.boxNonce c.1 = .ok masterKey :=
  mem_toOption

/-- What a master key makes of the ciphertext. -/
def readWith (ring : Keyring) (p : Payload) (masterKey : Block 32) : Except EnclaveError Bytes :=
  (ring.suite.openSealed masterKey p.cipherNonce p.ciphertext).mapError .crypto

theorem readWith_eq_ok : ring.readWith p masterKey = .ok m ↔
    ring.suite.openSealed masterKey p.cipherNonce p.ciphertext = .ok m :=
  mapError_eq_ok

theorem openThrough_eq (cs : List (Bytes × PublicKey)) : ring.openThrough p secret ours cs =
    (cs.findSome? (ring.masterKey? p secret ours)).elim (.error .keyNotFound) (ring.readWith p) := by
  induction cs with
  | nil => rfl
  | cons c cs ih =>
    rw [openThrough, List.findSome?_cons, masterKey?]
    cases ring.suite.openMasterKey (ring.pairKey secret ours c.2) p.boxNonce c.1 with
    | ok masterKey => rfl
    | error e => exact ih

theorem openPayload_eq (p : Payload) (hs : ring.secretOf k = .ok secret) : ring.openPayload p k =
    ((candidates p k).findSome? (ring.masterKey? p secret k)).elim (.error .keyNotFound) (ring.readWith p) := by
  rw [← openThrough_eq, Keyring.openPayload, hs]
  rfl

theorem openPayload_eq_ok (hs : ring.secretOf k = .ok secret) : ring.openPayload p k = .ok m ↔
    ∃ masterKey, (candidates p k).findSome? (ring.masterKey? p secret k) = some masterKey ∧
      ring.readWith p masterKey = .ok m := by
  rw [openPayload_eq p hs]
  cases (candidates p k).findSome? (ring.masterKey? p secret k) <;> simp

theorem exists_secretOf (h : ring.openPayload p k = .ok m) : ∃ secret, ring.secretOf k = .ok secret := by
  unfold Keyring.openPayload at h
  cases hs : ring.secretOf k with
  | ok secret => exact ⟨secret, rfl⟩
  | error e =>
    rw [hs] at h
    exact nomatch h

/-! ### Three parties -/

def carol : Block 32 := .replicate 32 3

/-- What Alice draws for a payload. -/
def sampleEntropy : Entropy := ⟨.replicate 32 7, .replicate 12 8, .replicate 12 9⟩

/-- The box that Alice makes around a master key. -/
def aliceBox (masterKey : Block 32) (k : PublicKey) : Bytes := boxTo standard alice { sampleEntropy with masterKey } k

/-- What Alice wrote to these parties, with other boxes. -/
def sampleBoxed (m : Bytes) (recipients : List PublicKey) (boxes : List Bytes) : Payload :=
  { sealFor standard alice sampleEntropy m recipients with boxes }

theorem openMasterKey_aliceBox (masterKey : Block 32) (k : PublicKey) :
    standard.openMasterKey ((ofSecrets standard [alice]).pairKey alice (standard.publicOf alice) k)
      sampleEntropy.boxNonce (aliceBox masterKey k) = .ok masterKey :=
  CipherSuite.standard_inverts.openMasterKey _ _ _

/-! ### The sender -/

/-- From the box in place `i` the sender, who owns `secret`, takes this master key. -/
def GivesAt (ring : Keyring) (p : Payload) (secret : Block 32) (i : Nat) (masterKey : Block 32) : Prop :=
  ∃ k box, p.recipients[i]? = some k ∧ p.boxes[i]? = some box ∧
    ring.suite.openMasterKey (ring.pairKey secret p.sender k) p.boxNonce box = .ok masterKey

theorem givesAt_iff : ring.GivesAt p secret i masterKey ↔
    ∃ c, (candidates p p.sender)[i]? = some c ∧ ring.masterKey? p secret p.sender c = some masterKey := by
  simp only [candidates_sender, List.getElem?_zip_eq_some, masterKey?_eq_some]
  constructor
  · rintro ⟨k, box, hk, hbox, hopen⟩
    exact ⟨(box, k), ⟨hbox, hk⟩, hopen⟩
  · rintro ⟨⟨box, k⟩, ⟨hbox, hk⟩, hopen⟩
    exact ⟨k, box, hk, hbox, hopen⟩

theorem GivesAt.unique {other : Block 32} (h : ring.GivesAt p secret i masterKey)
    (h' : ring.GivesAt p secret i other) : masterKey = other := by
  obtain ⟨c, hc, hkey⟩ := givesAt_iff.1 h
  obtain ⟨c', hc', hkey'⟩ := givesAt_iff.1 h'
  cases hc.symm.trans hc'
  exact Option.some.inj (hkey.symm.trans hkey')

/-- The first place that gives a master key decides what the sender reads. -/
theorem openPayload_first (hs : ring.secretOf p.sender = .ok secret) (hi : ring.GivesAt p secret i masterKey) :
    ∃ j ≤ i, ∃ key, ring.GivesAt p secret j key ∧ (∀ h < j, ∀ other, ¬ ring.GivesAt p secret h other) ∧
      ring.openPayload p p.sender = ring.readWith p key := by
  obtain ⟨c, hc, hkey⟩ := givesAt_iff.1 hi
  have hsome : ((candidates p p.sender).findSome? (ring.masterKey? p secret p.sender)).isSome := by
    rw [List.findSome?_isSome_iff]
    exact ⟨c, List.mem_of_getElem? hc, Option.isSome_of_eq_some hkey⟩
  obtain ⟨key, hfirst⟩ := Option.isSome_iff_exists.1 hsome
  obtain ⟨front, d, rest, hsplit, hd, hfront⟩ := List.findSome?_eq_some_iff.1 hfirst
  have hnone : ∀ h < front.length, ∀ other, ¬ ring.GivesAt p secret h other := by
    intro h hlt other hgives
    obtain ⟨e, he, hother⟩ := givesAt_iff.1 hgives
    rw [hsplit, List.getElem?_append_left hlt] at he
    exact nomatch hother.symm.trans (hfront e (List.mem_of_getElem? he))
  refine ⟨front.length, ?_, key, ?_, hnone, ?_⟩
  · by_contra hlt
    exact hnone i (Nat.lt_of_not_le hlt) masterKey hi
  · exact givesAt_iff.2 ⟨d, by rw [hsplit]; simp, hd⟩
  · rw [openPayload_eq p hs, hfirst]
    rfl

/-- A box with a right master key is enough for the sender, if no box in front of it holds a wrong one. Boxes that
give no key do not matter, nor does what stands behind. -/
theorem sender_opens (hs : ring.secretOf p.sender = .ok secret) (hi : ring.GivesAt p secret i masterKey)
    (hm : ring.suite.openSealed masterKey p.cipherNonce p.ciphertext = .ok m) :
    (∃ j ≤ i, ∃ key, ring.GivesAt p secret j key ∧ (∀ h < j, ∀ other, ¬ ring.GivesAt p secret h other) ∧
      ring.openPayload p p.sender = (ring.suite.openSealed key p.cipherNonce p.ciphertext).mapError .crypto) ∧
    ((∀ j < i, ∀ key, ring.GivesAt p secret j key →
        ∃ m', ring.suite.openSealed key p.cipherNonce p.ciphertext = .ok m') →
      ∃ m', ring.openPayload p p.sender = .ok m') ∧
    ((∀ j < i, ∀ key, ring.GivesAt p secret j key → key = masterKey) → ring.openPayload p p.sender = .ok m) := by
  obtain ⟨j, hj, key, hkey, hfront, hopen⟩ := openPayload_first hs hi
  have hplace : j < i ∨ key = masterKey := by
    rcases Nat.lt_or_eq_of_le hj with hlt | rfl
    · exact .inl hlt
    · exact .inr (hkey.unique hi)
  refine ⟨⟨j, hj, key, hkey, hfront, hopen⟩, fun hright => ?_, fun hsame => ?_⟩
  · have hread : ∃ m', ring.suite.openSealed key p.cipherNonce p.ciphertext = .ok m' := by
      rcases hplace with hlt | rfl
      · exact hright j hlt key hkey
      · exact ⟨m, hm⟩
    obtain ⟨m', hm'⟩ := hread
    exact ⟨m', hopen.trans (readWith_eq_ok.2 hm')⟩
  · have hright : key = masterKey := hplace.elim (fun hlt => hsame j hlt key hkey) id
    exact hopen.trans (hright ▸ readWith_eq_ok.2 hm)

/-- Bob's first box is none, and his second holds another master key than Carol's, which stands between them. -/
theorem sender_opens_sample :
    let ring := ofSecrets standard [alice]
    let p := sampleBoxed [1, 2, 3] [standard.publicOf bob, standard.publicOf carol, standard.publicOf bob]
      [[10], aliceBox (.replicate 32 7) (standard.publicOf carol), aliceBox (.replicate 32 6) (standard.publicOf bob)]
    ring.secretOf p.sender = .ok alice ∧ ring.GivesAt p alice 1 (.replicate 32 7) ∧
      ring.suite.openSealed (.replicate 32 7) p.cipherNonce p.ciphertext = .ok [1, 2, 3] ∧
      ring.openPayload p p.sender = .ok [1, 2, 3] := by
  intro ring p
  have hs : ring.secretOf p.sender = .ok alice := (owns_ofSecrets standard alice).secretOf
  have hi : ring.GivesAt p alice 1 (.replicate 32 7) := ⟨_, _, rfl, rfl, openMasterKey_aliceBox _ _⟩
  have hm : ring.suite.openSealed (.replicate 32 7) p.cipherNonce p.ciphertext = .ok [1, 2, 3] :=
    CipherSuite.standard_inverts.openSealed _ _ _
  obtain ⟨-, -, hopen⟩ := sender_opens hs hi hm
  refine ⟨hs, hi, hm, hopen fun j hj key hkey => ?_⟩
  obtain rfl : j = 0 := by omega
  obtain ⟨k, box, -, hbox, hgives⟩ := hkey
  cases hbox
  exact nomatch hgives

/-- A box in front that Alice can open, around a wrong master key, keeps her from a right one. -/
theorem wrong_key_hides_boxes : ¬ ∀ (ring : Keyring) (p : Payload) (secret : Block 32) (i : Nat) (masterKey : Block 32)
    (m : Bytes), ring.secretOf p.sender = .ok secret → ring.GivesAt p secret i masterKey →
      ring.suite.openSealed masterKey p.cipherNonce p.ciphertext = .ok m →
        ∃ m', ring.openPayload p p.sender = .ok m' := by
  intro hall
  let ring := ofSecrets standard [alice]
  let p := sampleBoxed [] [standard.publicOf carol, standard.publicOf bob]
    [aliceBox (.replicate 32 6) (standard.publicOf carol), aliceBox (.replicate 32 7) (standard.publicOf bob)]
  have hs : ring.secretOf p.sender = .ok alice := (owns_ofSecrets standard alice).secretOf
  have hright : ring.GivesAt p alice 1 (.replicate 32 7) := ⟨_, _, rfl, rfl, openMasterKey_aliceBox _ _⟩
  obtain ⟨m, hm⟩ := hall ring p alice 1 (.replicate 32 7) [] hs hright
    (CipherSuite.standard_inverts.openSealed _ _ _)
  have hfront : ring.GivesAt p alice 0 (.replicate 32 6) := ⟨_, _, rfl, rfl, openMasterKey_aliceBox _ _⟩
  obtain ⟨j, hj, key, hkey, -, hopen⟩ := openPayload_first hs hfront
  obtain rfl : j = 0 := Nat.le_zero.1 hj
  obtain rfl : key = .replicate 32 6 := hkey.unique hfront
  have hwrong : ring.readWith p (.replicate 32 6) = .error (.crypto .decryptFailed) := by decide +kernel
  exact nomatch (hopen.trans hwrong).symm.trans hm

/-! ### A recipient -/

/-- The box in the place that the key is given is the only one that is tried. -/
theorem openPayload_place (hsender : p.sender ≠ k) (hk : k ∉ p.recipients)
    (hbox : p.boxes[p.recipients.length]? = some box) :
    ring.openPayload (p.withRecipient k) k = ring.openPayload (p.onlyBox box) k := by
  have hown := (Payload.boxOf?_withRecipient hk).trans hbox
  have halone : candidates (p.onlyBox box) k = [(box, p.sender)] :=
    candidates_of_unboxed hsender (Payload.boxOf?_of_not_mem List.not_mem_nil)
  rw [Payload.withRecipient_of_not_mem hk] at hown ⊢
  have hnamed : candidates { p with recipients := p.recipients ++ [k] } k = [(box, p.sender)] :=
    candidates_of_boxOf? hsender hown
  exact openPayload_of_candidates rfl rfl rfl (hnamed.trans halone.symm)

/-- With no box in that place all boxes are tried, as before. -/
theorem openPayload_no_place (hsender : p.sender ≠ k) (hk : k ∉ p.recipients)
    (hnone : p.boxes[p.recipients.length]? = none) :
    ring.openPayload (p.withRecipient k) k = ring.openPayload p k := by
  have hown := (Payload.boxOf?_withRecipient hk).trans hnone
  rw [Payload.withRecipient_of_not_mem hk] at hown ⊢
  have hnamed : candidates { p with recipients := p.recipients ++ [k] } k = p.boxes.map (·, p.sender) :=
    candidates_of_unboxed hsender hown
  have hbefore : candidates p k = p.boxes.map (·, p.sender) :=
    candidates_of_unboxed hsender (Payload.boxOf?_of_not_mem hk)
  exact openPayload_of_candidates rfl rfl rfl (hnamed.trans hbefore.symm)

/-- The sender may try one box more once its own key is named, but after all others. -/
theorem openPayload_sender_named (h : ring.openPayload p p.sender = .ok m) :
    ring.openPayload (p.withRecipient p.sender) p.sender = .ok m := by
  by_cases hk : p.sender ∈ p.recipients
  · rw [Payload.withRecipient_of_mem hk]
    exact h
  · obtain ⟨secret, hs⟩ := exists_secretOf h
    obtain ⟨masterKey, hfirst, hread⟩ := (openPayload_eq_ok hs).1 h
    rw [Payload.withRecipient_of_not_mem hk]
    have hlonger : candidates p p.sender <+:
        candidates { p with recipients := p.recipients ++ [p.sender] } p.sender := by
      rw [candidates_sender, candidates, if_pos rfl]
      exact zip_prefix_zip_append _ _ _
    exact (openPayload_eq_ok hs).2 ⟨masterKey, hlonger.findSome?_eq_some hfirst, hread⟩

/-- A payload that a key opens, with that key named. It opens as before unless the key is new, is not the sender's,
and comes to stand in the place of a box; then it opens as that box alone would. So it always does if there is one
box. -/
theorem opens_named (h : ring.openPayload p k = .ok m) :
    k ∈ (p.withRecipient k).recipients ∧
    (ring.openPayload (p.withRecipient k) k = .ok m ↔ p.sender = k ∨ k ∈ p.recipients ∨
      ∀ box, p.boxes[p.recipients.length]? = some box → ring.openPayload (p.onlyBox box) k = .ok m) ∧
    (p.sender ≠ k → k ∉ p.recipients → ∀ box, p.boxes[p.recipients.length]? = some box →
      ring.openPayload (p.withRecipient k) k = ring.openPayload (p.onlyBox box) k) ∧
    (p.boxes.length ≤ 1 → ring.openPayload (p.withRecipient k) k = .ok m) := by
  have hopens : ring.openPayload (p.withRecipient k) k = .ok m ↔ p.sender = k ∨ k ∈ p.recipients ∨
      ∀ box, p.boxes[p.recipients.length]? = some box → ring.openPayload (p.onlyBox box) k = .ok m := by
    by_cases hsender : p.sender = k
    · subst hsender
      exact iff_of_true (openPayload_sender_named h) (.inl rfl)
    by_cases hk : k ∈ p.recipients
    · rw [Payload.withRecipient_of_mem hk]
      exact iff_of_true h (.inr (.inl hk))
    simp only [hsender, hk, false_or]
    cases hplace : p.boxes[p.recipients.length]? with
    | none =>
      rw [openPayload_no_place hsender hk hplace]
      exact iff_of_true h nofun
    | some box =>
      rw [openPayload_place hsender hk hplace]
      simp
  refine ⟨p.mem_withRecipient k, hopens, fun hsender hk _ => openPayload_place hsender hk, fun hone => ?_⟩
  refine hopens.2 (.inr (.inr fun box hplace => ?_))
  -- the place of the only box is the first, so that nobody is listed
  obtain ⟨hlt, -⟩ := List.getElem?_eq_some_iff.1 hplace
  have hkeys : p.recipients = [] := List.eq_nil_of_length_eq_zero (by omega)
  have hboxes : p.boxes = [box] := by
    obtain ⟨b, hb⟩ := List.length_eq_one_iff.1 (show p.boxes.length = 1 by omega)
    rw [hkeys, hb] at hplace
    rw [hb, Option.some.inj hplace]
  rw [Payload.onlyBox_eq_self hkeys hboxes]
  exact h

/-- What Bob keeps of a payload before his key is named: a box that is damaged, and his own. -/
def sampleKept (recipients : List PublicKey) : Payload :=
  sampleBoxed [1, 2, 3] recipients [[10], aliceBox (.replicate 32 7) (standard.publicOf bob)]

theorem openPayload_sampleKept {recipients : List PublicKey} (hbob : standard.publicOf bob ∉ recipients) :
    (ofSecrets standard [bob]).openPayload (sampleKept recipients) (standard.publicOf bob) = .ok [1, 2, 3] := by
  have hcandidates : candidates (sampleKept recipients) (standard.publicOf bob) =
      [([10], standard.publicOf alice),
        (aliceBox (.replicate 32 7) (standard.publicOf bob), standard.publicOf alice)] :=
    candidates_of_unboxed bob_ne_alice.symm (Payload.boxOf?_of_not_mem hbob)
  have hdamaged : (ofSecrets standard [bob]).masterKey? (sampleKept recipients) bob (standard.publicOf bob)
      ([10], standard.publicOf alice) = none := rfl
  have hown : (ofSecrets standard [bob]).masterKey? (sampleKept recipients) bob (standard.publicOf bob)
      (aliceBox (.replicate 32 7) (standard.publicOf bob), standard.publicOf alice) = some (.replicate 32 7) := by
    rw [aliceBox, boxTo_comm agreeing_alice_bob]
    exact masterKey?_eq_some.2 (CipherSuite.standard_inverts.openMasterKey _ _ _)
  refine (openPayload_eq_ok (owns_ofSecrets standard bob).secretOf).2 ⟨.replicate 32 7, ?_, ?_⟩
  · rw [hcandidates, List.findSome?_cons, hdamaged, List.findSome?_cons, hown]
  · exact readWith_eq_ok.2 (CipherSuite.standard_inverts.openSealed _ _ _)

theorem onlyBox_sampleKept (recipients : List PublicKey) :
    (sampleKept recipients).onlyBox (aliceBox (.replicate 32 7) (standard.publicOf bob)) =
      { sealFor standard alice sampleEntropy [1, 2, 3] [standard.publicOf bob] with recipients := [] } := rfl

/-- Behind Carol's key Bob's stands in the place of his own box. -/
theorem opens_named_sample :
    let ring := ofSecrets standard [bob]
    let p := sampleKept [standard.publicOf carol]
    ring.openPayload p (standard.publicOf bob) = .ok [1, 2, 3] ∧
      standard.publicOf bob ∈ (p.withRecipient (standard.publicOf bob)).recipients ∧
      ring.openPayload (p.withRecipient (standard.publicOf bob)) (standard.publicOf bob) = .ok [1, 2, 3] := by
  intro ring p
  have hcarol : standard.publicOf bob ∉ [standard.publicOf carol] := by decide +kernel
  have hkept : ring.openPayload p (standard.publicOf bob) = .ok [1, 2, 3] := openPayload_sampleKept hcarol
  obtain ⟨hlisted, hopens, -, -⟩ := opens_named hkept
  refine ⟨hkept, hlisted, hopens.2 (.inr (.inr fun box hbox => ?_))⟩
  have hown : aliceBox (.replicate 32 7) (standard.publicOf bob) = box := Option.some.inj hbox
  rw [← hown, onlyBox_sampleKept]
  exact openPayload_keyless CipherSuite.standard_inverts (owns_ofSecrets standard bob) agreeing_alice_bob bob_ne_alice

/-- With no key in front of it Bob's stands in the place of the damaged box, and his own is not tried any more. -/
theorem naming_hides_box : ¬ ∀ (ring : Keyring) (p : Payload) (k : PublicKey) (m : Bytes),
    ring.openPayload p k = .ok m →
      k ∈ (p.withRecipient k).recipients ∧ ring.openPayload (p.withRecipient k) k = .ok m := by
  intro hall
  have hs : (ofSecrets standard [bob]).secretOf (standard.publicOf bob) = .ok bob :=
    (owns_ofSecrets standard bob).secretOf
  have hsender : (sampleKept []).sender ≠ standard.publicOf bob := bob_ne_alice.symm
  obtain ⟨-, hopen⟩ := hall _ (sampleKept []) (standard.publicOf bob) _ (openPayload_sampleKept List.not_mem_nil)
  rw [openPayload_place hsender List.not_mem_nil rfl] at hopen
  have hcandidates : candidates ((sampleKept []).onlyBox [10]) (standard.publicOf bob) =
      [([10], standard.publicOf alice)] :=
    candidates_of_unboxed hsender (Payload.boxOf?_of_not_mem List.not_mem_nil)
  obtain ⟨masterKey, hfirst, -⟩ := (openPayload_eq_ok hs).1 hopen
  rw [hcandidates] at hfirst
  exact nomatch hfirst

end Keyring

end TxRecovery
