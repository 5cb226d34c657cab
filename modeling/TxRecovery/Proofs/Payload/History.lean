import Mathlib.Logic.Relation
import TxRecovery.Proofs.Payload.Merge

/-!
# Histories

A `History` is what a party can rebuild from nothing: payloads that affect none but each other, without a
cycle, in one privacy mode along the way. What makes it one is in what every view of a payload has in common
(`Payload.Narrowed`), so that the views of a history are a history (`History.narrow`).
-/

namespace TxRecovery

open Relation (TransGen)

namespace Payload

variable {p q : Payload} {k : PublicKey}

/-- `q` is `p` for no more parties. -/
structure Narrowed (p q : Payload) : Prop where
  hash : q.hash = p.hash
  mode : q.mode = p.mode
  affected : q.affected = p.affected
  execHash : q.execHash = p.execHash
  fits : p.Fits → q.Fits
  length_le : q.encode.length ≤ p.encode.length

theorem Narrowed.refl (p : Payload) : p.Narrowed p := ⟨rfl, rfl, rfl, rfl, fun h => h, Nat.le_refl _⟩

theorem narrowed_of_box {b : Bytes} (hk : k ∈ p.recipients) (hb : b ∈ p.boxes) :
    p.Narrowed { p with recipients := [k], boxes := [b] } := by
  refine ⟨rfl, rfl, rfl, rfl, fun hp => ?_, length_encode_narrow_le hk hb⟩
  refine ⟨hp.ciphertext, (by decide : 1 < UInt64.size), fun b' hb' => ?_, (by decide : 1 < UInt64.size),
    hp.affected, hp.execHash⟩
  rw [List.mem_singleton.1 hb']
  exact hp.box b hb

/-- What a listed party is given by the sender: a standard private payload is narrowed to it, any other one
is not. -/
def viewFor (p : Payload) (k : PublicKey) : Except PayloadError Payload :=
  if p.mode.isStandard then p.forRecipient k else .ok p

theorem exists_viewFor (hlen : p.recipients.length = p.boxes.length) (hk : k ∈ p.recipients) :
    ∃ q, p.viewFor k = .ok q ∧ p.Narrowed q := by
  unfold viewFor
  split
  · obtain ⟨b, hb, hview⟩ := forRecipient_of_mem hlen hk
    exact ⟨_, hview, narrowed_of_box hk hb⟩
  · exact ⟨p, rfl, .refl p⟩

end Payload

/-- Some payload of the transaction `h` affects `a`. -/
def Affects (P : Payload → Prop) (a h : TxHash) : Prop := ∃ p, P p ∧ p.hash = h ∧ a ∈ p.affected.keys

/-- The payloads with `P` are all that is needed to commit them. -/
structure History (P : Payload → Prop) : Prop where
  exists_mem : ∃ p, P p
  closed : ∀ p, P p → ∀ a ∈ p.affected.keys, ∃ q, P q ∧ q.hash = a
  acyclic : ∀ h, ¬ TransGen (Affects P) h h
  mode : ∀ p, P p → ∀ q, P q → q.hash ∈ p.affected.keys → q.mode = p.mode
  execHash : ∀ p, P p → p.mode = .stateValidation → p.execHash ≠ []

namespace History

variable {P Q : Payload → Prop}

theorem narrow (hP : History P) (hview : ∀ p, P p → ∃ q, Q q ∧ p.Narrowed q)
    (hof : ∀ q, Q q → ∃ p, P p ∧ p.Narrowed q) : History Q := by
  refine ⟨?_, fun q hq a ha => ?_, fun h hcycle => ?_, fun q hq r hr ha => ?_, fun q hq hm => ?_⟩
  · obtain ⟨p, hp⟩ := hP.exists_mem
    obtain ⟨q, hq, -⟩ := hview p hp
    exact ⟨q, hq⟩
  · obtain ⟨p, hp, hn⟩ := hof q hq
    rw [hn.affected] at ha
    obtain ⟨p', hp', rfl⟩ := hP.closed p hp a ha
    obtain ⟨q', hq', hn'⟩ := hview p' hp'
    exact ⟨q', hq', hn'.hash⟩
  · have hsub : Affects Q ≤ Affects P := by
      rintro a _ ⟨q, hq, rfl, ha⟩
      obtain ⟨p, hp, hn⟩ := hof q hq
      exact ⟨p, hp, hn.hash.symm, hn.affected ▸ ha⟩
    exact hP.acyclic h (TransGen.mono hsub h h hcycle)
  · obtain ⟨p, hp, hn⟩ := hof q hq
    obtain ⟨p', hp', hn'⟩ := hof r hr
    rw [hn.mode, hn'.mode]
    rw [hn.affected, hn'.hash] at ha
    exact hP.mode p hp p' hp' ha
  · obtain ⟨p, hp, hn⟩ := hof q hq
    rw [hn.execHash]
    exact hP.execHash p hp (hn.mode ▸ hm)

theorem hash_not_mem (hP : History P) {p : Payload} (hp : P p) : p.hash ∉ p.affected.keys :=
  fun ha => hP.acyclic p.hash (.single ⟨p, hp, rfl, ha⟩)

theorem acyclic_of_rank (rank : TxHash → Nat) (hrank : ∀ p, P p → ∀ a ∈ p.affected.keys, rank a < rank p.hash)
    (h : TxHash) : ¬ TransGen (Affects P) h h := by
  have hstep : ∀ a b, Affects P a b → rank a < rank b := by
    rintro a _ ⟨p, hp, rfl, ha⟩
    exact hrank p hp a ha
  have hpath : ∀ a b, TransGen (Affects P) a b → rank a < rank b := by
    intro a b hab
    induction hab with
    | single hab => exact hstep _ _ hab
    | tail _ hbc ih => exact Nat.lt_trans ih (hstep _ _ hbc)
  exact fun hcycle => Nat.lt_irrefl _ (hpath h h hcycle)

end History

end TxRecovery
