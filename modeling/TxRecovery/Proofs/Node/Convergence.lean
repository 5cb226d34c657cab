import TxRecovery.Proofs.Node.Reachable
import TxRecovery.Proofs.Staging.Convergence

/-!
# Staging converges

An area that payloads are pushed to, with staging passes of any batch size in between, holds up to stages and issues
what one push of all the accepted payloads would leave (`exists_sound_takeIn`). So two nodes that begin without rows and
were pushed the same last payload of every view have the same area, byte for byte, once a staging pass has run on each,
and another pass leaves it as it is (`staging_converges`).
-/

namespace TxRecovery

namespace Node

open Staging (Area Contents ViewKey lastPushed isViewOf readable)

/-- What reaches a staging area before it is synchronised: pushes, and staging passes with batches of any size. -/
inductive Intake where
  | push (payloads : List Bytes)
  | pass (batch : Nat)

namespace Intake

def run : Intake → Node → Node
  | push payloads, n => ((Node.push payloads).eval n).2
  | pass batch, n => ((backend.performStaging batch).eval n).2

/-- The nodes on the way, one for each payload that is written. -/
def trail : Intake → Node → List Node
  | push payloads, n =>
    (List.range (payloads.length + 1)).map fun k => ((Node.push (payloads.take k)).eval n).2
  | pass _, _ => []

def accepted : Intake → List Bytes
  | push payloads => readable payloads
  | pass _ => []

end Intake

def takeIn : List Intake → Node → Node
  | [], n => n
  | e :: es, n => takeIn es (e.run n)

def intakeTrail : List Intake → Node → List Node
  | [], _ => []
  | e :: es, n => e.trail n ++ intakeTrail es (e.run n)

/-- The payloads that were accepted, in the order in which they came. -/
def accepted (es : List Intake) : List Bytes := es.flatMap Intake.accepted

variable {n n' : Node} {c : Contents} {es es' : List Intake} {raw : Bytes}

theorem Intake.decode_of_mem_accepted {e : Intake} (hraw : raw ∈ e.accepted) : ∃ p, Payload.decode raw = .ok p := by
  cases e with
  | push payloads => exact Staging.exists_of_mem_readable hraw
  | pass batch => exact absurd hraw List.not_mem_nil

theorem decode_of_mem_accepted (hraw : raw ∈ accepted es) : ∃ p, Payload.decode raw = .ok p := by
  obtain ⟨e, -, hraw⟩ := List.mem_flatMap.1 hraw
  exact e.decode_of_mem_accepted hraw

/-- One step: the area stays sound, and up to stages it takes in what the step accepts. -/
theorem Intake.exists_sound (ha : n.area.Sound c) (e : Intake) (hfit : ∀ m ∈ e.trail n, FitsInMemory m.area.tree) :
    ∃ area c', e.run n = { n with area } ∧ area.Sound c' ∧ c'.bare = c.bare.push e.accepted := by
  cases e with
  | push payloads =>
    obtain ⟨area, heval, hsound⟩ := eval_push ha payloads (forall_take_of_trail hfit)
    refine ⟨area, _, heval, hsound, ?_⟩
    rw [Contents.bare_push, Intake.accepted, Contents.push_readable]
  | pass batch =>
    obtain ⟨area, heval, hholds⟩ := eval_performStaging ha.holds (lt_size_of_lt_addressable ha.size) batch
    refine ⟨area, c.restage, ?_, ha.restage hholds, c.bare_restage⟩
    rw [Intake.run, heval]

theorem exists_sound_takeIn (ha : n.area.Sound c) (es : List Intake)
    (hfit : ∀ m ∈ intakeTrail es n, FitsInMemory m.area.tree) :
    ∃ area c', takeIn es n = { n with area } ∧ area.Sound c' ∧ c'.bare = c.bare.push (accepted es) := by
  induction es generalizing n c with
  | nil => exact ⟨n.area, c, rfl, ha, rfl⟩
  | cons e es ih =>
    obtain ⟨area, c₁, hrun, ha₁, hbare⟩ := e.exists_sound ha fun m hm => hfit m (List.mem_append_left _ hm)
    rw [intakeTrail, hrun] at hfit
    obtain ⟨area', c₂, hrest, ha₂, hbare'⟩ := ih (n := { n with area }) ha₁ fun m hm =>
      hfit m (List.mem_append_right _ hm)
    refine ⟨area', c₂, ?_, ha₂, ?_⟩
    · rw [takeIn, hrun, hrest]
    · have hcons : accepted (e :: es) = e.accepted ++ accepted es := List.flatMap_cons
      rw [hbare', hbare, hcons, Contents.push_append fun _ => Intake.decode_of_mem_accepted]

/-- Begun without rows, the area after another pass is that of one push of all that was accepted, staged. -/
theorem eval_performStaging_takeIn (harea : n.area = .empty) (hfit : ∀ m ∈ intakeTrail es n, FitsInMemory m.area.tree)
    (hc : Contents.push .empty (accepted es) = c) (batch : Nat) :
    ∃ area, (backend.performStaging batch).eval (takeIn es n) =
        (.ok (.ofStaging c.size c.stageable), { takeIn es n with area }) ∧
      area.Holds c.restage ∧ c.size < UInt64.size := by
  have hempty : n.area.Sound .empty := harea ▸ Staging.Area.sound_empty
  obtain ⟨area₀, c', hrun, hsound, hbare⟩ := exists_sound_takeIn hempty es hfit
  have hc' : c'.bare = c := hbare.trans hc
  have hrestage : c'.restage = c.restage := by rw [← hc', Contents.restage_bare]
  have hsize : c'.size = c.size := by rw [← c'.size_restage, hrestage, c.size_restage]
  have hlt := lt_size_of_lt_addressable hsound.size
  have hholds₀ : (takeIn es n).area.Holds c' := by
    rw [hrun]
    exact hsound.holds
  obtain ⟨area, heval, hholds⟩ := eval_performStaging hholds₀ hlt batch
  rw [hsize, Contents.stageable_congr hrestage] at heval
  exact ⟨area, heval, hrestage ▸ hholds, hsize ▸ hlt⟩

/-- The order of what comes does not matter, nor when staging passes run and how large their batches are: nodes that begin
without rows and were pushed the same last payload of each view have the same rows after one more pass, and further
passes leave them as they are. -/
theorem staging_converges (harea : n.area = .empty) (harea' : n'.area = .empty)
    (hfit : ∀ m ∈ intakeTrail es n, FitsInMemory m.area.tree)
    (hfit' : ∀ m ∈ intakeTrail es' n', FitsInMemory m.area.tree)
    (hlast : ∀ h k, lastPushed (accepted es) h k = lastPushed (accepted es') h k) (batch batch' : Nat) :
    ∃ area outcome,
      (backend.performStaging batch).eval (takeIn es n) = (.ok outcome, { takeIn es n with area }) ∧
      (backend.performStaging batch').eval (takeIn es' n') = (.ok outcome, { takeIn es' n' with area }) ∧
      ∀ m : Node, m.area = area → ∀ batch, (backend.performStaging batch).eval m = (.ok outcome, m) := by
  have hpush : Contents.push .empty (accepted es') = Contents.push .empty (accepted es) :=
    Contents.push_empty_congr (fun _ => decode_of_mem_accepted) (fun _ => decode_of_mem_accepted)
      fun h k => (hlast h k).symm
  generalize hc : Contents.push .empty (accepted es) = c at hpush
  obtain ⟨area, heval, hholds, hlt⟩ := eval_performStaging_takeIn harea hfit hc batch
  obtain ⟨area', heval', hholds', -⟩ := eval_performStaging_takeIn harea' hfit' hpush batch'
  cases hholds.unique hholds'
  refine ⟨area, _, heval, heval', ?_⟩
  rintro m rfl batch
  -- a pass over what a pass has left computes the same stages
  obtain ⟨area'', heval'', hholds''⟩ := eval_performStaging hholds (c.size_restage ▸ hlt) batch
  rw [c.restage_restage] at hholds''
  cases hholds.unique hholds''
  rwa [c.size_restage, Contents.stageable_congr c.restage_restage] at heval''

/-! ### Two ways to take in the same payloads -/

def sampleNewer : Payload := samplePayloads.getD 0 default

/-- An older payload of the same view. -/
def sampleOlder : Payload := { sampleNewer with boxes := [[9], [9]] }

/-- The payload of another transaction, on which the first depends. -/
def sampleOther : Payload := samplePayloads.getD 1 default

def sampleIntake : List Intake :=
  [.push [sampleOlder.encode], .pass 0, .push [sampleNewer.encode, sampleOther.encode]]

/-- The other way round and without the older payload; the last push ends with bytes that do not read. -/
def sampleReversed : List Intake :=
  [.pass 3, .push [sampleOther.encode], .pass 1, .push [sampleNewer.encode, []]]

theorem accepted_samples : accepted sampleIntake = [sampleOlder.encode, sampleNewer.encode, sampleOther.encode] ∧
    accepted sampleReversed = [sampleOther.encode, sampleNewer.encode] := by
  decide +kernel

theorem decode_samples : Payload.decode sampleOlder.encode = .ok sampleOlder ∧
    Payload.decode sampleNewer.encode = .ok sampleNewer ∧ Payload.decode sampleOther.encode = .ok sampleOther ∧
    sampleNewer.hash ≠ sampleOther.hash := by
  decide +kernel

theorem lastPushed_samples (h : TxHash) (k : ViewKey) :
    lastPushed (accepted sampleIntake) h k = lastPushed (accepted sampleReversed) h k := by
  obtain ⟨holder, hnewer, hother, hne⟩ := decode_samples
  have hsame : isViewOf h k sampleOlder.encode = isViewOf h k sampleNewer.encode := by
    unfold isViewOf
    rw [holder, hnewer]
    rfl
  rw [accepted_samples.1, accepted_samples.2]
  simp only [Staging.lastPushed_cons, hsame]
  cases ha : isViewOf h k sampleNewer.encode with
  | false => simp
  | true =>
    have hno : isViewOf h k sampleOther.encode = false := by
      refine Bool.eq_false_iff.2 fun hb => hne ?_
      rw [((Staging.isViewOf_iff hnewer).1 ha).1, ((Staging.isViewOf_iff hother).1 hb).1]
    simp [hno]

/-- A node over empty stores. -/
def sampleStart : Node := .fresh "" .standard ⟨.standard, .started, .empty⟩

theorem staging_converges_sample : ∃ area outcome,
    (backend.performStaging 0).eval (takeIn sampleIntake sampleStart) =
      (.ok outcome, { takeIn sampleIntake sampleStart with area }) ∧
    (backend.performStaging 2).eval (takeIn sampleReversed sampleStart) =
      (.ok outcome, { takeIn sampleReversed sampleStart with area }) ∧
    ∀ m : Node, m.area = area → ∀ batch, (backend.performStaging batch).eval m = (.ok outcome, m) :=
  staging_converges rfl rfl (by decide +kernel) (by decide +kernel) lastPushed_samples 0 2

end Node

end TxRecovery
