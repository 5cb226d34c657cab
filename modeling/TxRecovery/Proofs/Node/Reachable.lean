import TxRecovery.Proofs.Node.Pass

/-!
# Reachable nodes

`Node.Reachable`: a node comes from one over empty stores by requests, one at a time, and its stores fit
in memory wherever a request writes to them. A request keeps a node sound and leaves of its staging area what
`Request.Leaves` says (`Sound.run`), so every reachable node is sound (`Reachable.sound`).
-/

namespace TxRecovery

namespace Node

open Staging (Contents)

inductive Request where
  | push (payloads : List Bytes)
  | stage
  | sync
  | cleanup
  | pass (now : String)

namespace Request

/-- The node after a request, whether it was answered or refused. -/
def run : Request → Node → Node
  | push payloads, n => ((Node.push payloads).eval n).2
  | stage, n => (Node.stage.eval n).2
  | sync, n => (Node.sync.eval n).2
  | cleanup, n => (Node.cleanup.eval n).2
  | pass now, n => ((runPass now).eval n).2

/-- The nodes that a request goes through: a push writes after each of its payloads. -/
def trail : Request → Node → List Node
  | push payloads, n =>
    (List.range (payloads.length + 1)).map fun k => ((Node.push (payloads.take k)).eval n).2
  | r, n => [r.run n]

/-- What a request may leave of the rows `c` of the staging area. -/
def Leaves : Request → Contents → Contents → Prop
  | push payloads, c, c' => c' = c.push payloads
  | stage, c, c' => c' = c.restage
  | sync, c, c' => c' = c
  | cleanup, _, c' => c' = .empty
  | pass _, c, c' => c' = .empty ∨ c' = c.restage

end Request

inductive Reachable : Node → Prop where
  | fresh (version : String) (settings : Settings) (keyring : Keyring) :
    Reachable (Node.fresh version settings keyring)
  | step {n : Node} (r : Request) (hn : Reachable n) (hfit : ∀ m ∈ r.trail n, m.Fits) : Reachable (r.run n)

variable {n : Node} {c : Contents}

theorem Sound.run (hn : n.Sound c) (r : Request) (hfit : ∀ m ∈ r.trail n, m.Fits) :
    ∃ c', r.Leaves c c' ∧ (r.run n).Sound c' := by
  cases r with
  | push payloads => exact ⟨_, rfl, hn.push (forall_take_of_trail hfit)⟩
  | stage => exact ⟨_, rfl, hn.stage⟩
  | sync => exact ⟨_, rfl, hn.sync (hfit _ List.mem_cons_self)⟩
  | cleanup => exact ⟨_, rfl, hn.cleanup⟩
  | pass now => exact hn.runPass (hfit _ List.mem_cons_self)

theorem Reachable.sound (hn : Reachable n) : ∃ c, n.Sound c := by
  induction hn with
  | fresh version settings keyring => exact ⟨.empty, sound_fresh version settings keyring⟩
  | step r _ hfit ih =>
    obtain ⟨c, hc⟩ := ih
    obtain ⟨c', -, hc'⟩ := hc.run r hfit
    exact ⟨c', hc'⟩

/-! ### A reachable node -/

/-- Two payloads of one sender; the first depends on the second. -/
def samplePayloads : List Payload :=
  let party (b : UInt8) : PublicKey := ⟨.replicate 32 b⟩
  let base : Payload := ⟨party 1, [1], default, [[1], [2]], default, [party 2, party 3], .partyProtection, .empty, []⟩
  [{ base with ciphertext := [2], affected := .ofList [(base.hash, ⟨[7]⟩)] }, base]

/-- A node without keys that was pushed `samplePayloads`. -/
def sample : Node :=
  (Request.push (samplePayloads.map Payload.encode)).run (.fresh "" .standard ⟨.standard, .started, .empty⟩)

theorem reachable_sample : Reachable sample :=
  .step (.push (samplePayloads.map Payload.encode)) (.fresh _ _ _) (by decide +kernel)

end Node

end TxRecovery
