import TxRecovery.Api.Router
import TxRecovery.Proofs.Node.History
import TxRecovery.Proofs.Staging.Arrivals

/-!
# What a cleanup removes when others push during the pass

`Node.Interleaving`: pushes and staging requests that reach a node between the steps of a recovery pass. The check before
the cleanup compares counts alone. It fails where a push has left a row without a stage, so that what is removed was handed
to the synchronisation (`cleanup_removes_synced`), but for two gaps: a staging request that comes after the
synchronisation may give the row its stage back, and a push that comes after the check is not seen. The first gap does
lose a version (`cleanup_loses_version`).
-/

namespace TxRecovery

open Staging (Area Arrival Contents Row pushed)

namespace Staging.Arrival

/-- What the node's interface does on the request. -/
def op : Arrival → NodeOp Unit
  | push payloads => do
    Node.push payloads
    Node.refreshGauge
    modify fun n => n.count fun m => { m with payloadsStaged := m.payloadsStaged + payloads.length }
  | stage => do
    let _ ← Node.stage

/-- The node after the request, whether it was answered or refused. -/
def run (a : Arrival) (n : Node) : Node := (a.op.eval n).2

/-- The nodes on the way, one for each payload that is written. -/
def trail : Arrival → Node → List Node
  | push payloads, n =>
    (List.range (payloads.length + 1)).map fun k => ((Node.push (payloads.take k)).eval n).2
  | stage, _ => []

end Staging.Arrival

namespace Api

theorem snd_respond {α : Type} (op : NodeOp α) (f : α → Http.Response) (n : Node) :
    (respond op f n).2 = (op.eval n).2 := by
  unfold respond
  rcases op.eval n with ⟨_ | _, _⟩ <;> rfl

/-- The payloads that a push request carries, if they can be read. -/
def payloadsOf (request : Http.Request) : Option (List Bytes) :=
  match readBody PushBody.record request with
  | .ok body => body.decode.toOption
  | .error _ => none

/-- A push request that can be read is such an arrival; any other changes nothing. -/
theorem snd_push (request : Http.Request) (n : Node) : (push request n).2 =
    match payloadsOf request with
    | some payloads => (Arrival.push payloads).run n
    | none => n := by
  unfold push payloadsOf
  cases readBody PushBody.record request with
  | error _ => rfl
  | ok body =>
    dsimp only
    cases body.decode with
    | error _ => rfl
    | ok payloads => exact snd_respond _ _ n

theorem snd_stage (n : Node) : (stage n).2 = Arrival.stage.run n := by
  unfold stage Arrival.run Arrival.op
  rw [snd_respond, Op.eval_bind]
  rcases Node.stage.eval n with ⟨_ | _, _⟩ <;> rfl

end Api

namespace Node

variable {n : Node} {c : Contents} {as : List Arrival}

/-- The node after these requests, one after the other. -/
def landed (as : List Arrival) (n : Node) : Node := as.foldl (fun n a => a.run n) n

def landTrail : List Arrival → Node → List Node
  | [], _ => []
  | a :: as, n => a.trail n ++ landTrail as (a.run n)

theorem landTrail_append (as bs : List Arrival) (n : Node) :
    landTrail (as ++ bs) n = landTrail as n ++ landTrail bs (landed as n) := by
  induction as generalizing n with
  | nil => rfl
  | cons a as ih => rw [List.cons_append, landTrail, ih, landTrail, List.append_assoc]; rfl

/-- The requests as they reach a pass: none of them fails it. -/
def land (as : List Arrival) : NodeOp Unit := modify (landed as)

theorem eval_land (as : List Arrival) (n : Node) : (land as).eval n = (.ok (), landed as n) := rfl

theorem exists_run_arrival (ha : n.area.Sound c) (a : Arrival) (hfit : ∀ m ∈ a.trail n, FitsInMemory m.area.tree) :
    ∃ area metrics, a.run n = { n with area, metrics } ∧ area.Sound (c.arrive a) := by
  cases a with
  | push payloads =>
    obtain ⟨area, heval, harea⟩ := eval_push ha payloads (forall_take_of_trail hfit)
    unfold Arrival.run Arrival.op
    rw [Op.eval_bind]
    rcases hpush : (push payloads).eval n with ⟨_ | _, m⟩
    · rw [hpush] at heval
      exact ⟨area, n.metrics, heval, harea⟩
    · rw [hpush] at heval
      cases heval
      exact ⟨area, _, rfl, harea⟩
  | stage =>
    obtain ⟨area, -, harea, heval⟩ := eval_stageThen (f := id) ha (Op.eval_pure ())
    have hstage : stage.eval n = _ := heval
    unfold Arrival.run Arrival.op
    rw [Op.eval_bind_ok hstage]
    exact ⟨area, _, rfl, harea⟩

theorem exists_landed (ha : n.area.Sound c) (as : List Arrival)
    (hfit : ∀ m ∈ landTrail as n, FitsInMemory m.area.tree) :
    ∃ area metrics, landed as n = { n with area, metrics } ∧ area.Sound (as.foldl Contents.arrive c) := by
  induction as generalizing n c with
  | nil => exact ⟨n.area, n.metrics, rfl, ha⟩
  | cons a as ih =>
    obtain ⟨area, metrics, hrun, harea⟩ := exists_run_arrival ha a fun m hm => hfit m (List.mem_append_left _ hm)
    rw [landTrail, hrun] at hfit
    obtain ⟨area', metrics', hrest, harea'⟩ := ih (n := { n with area, metrics }) harea fun m hm =>
      hfit m (List.mem_append_right _ hm)
    refine ⟨area', metrics', ?_, harea'⟩
    show landed as (a.run n) = _
    rw [hrun, hrest]

theorem sound_landed (ha : n.area.Sound c) (as : List Arrival) (hfit : ∀ m ∈ landTrail as n, FitsInMemory m.area.tree) :
    (landed as n).area.Sound (as.foldl Contents.arrive c) := by
  obtain ⟨area, metrics, hland, harea⟩ := exists_landed ha as hfit
  rw [hland]
  exact harea

theorem Sound.landed (hn : n.Sound c) (as : List Arrival) (hfit : ∀ m ∈ landTrail as n, FitsInMemory m.area.tree) :
    (Node.landed as n).Sound (as.foldl Contents.arrive c) := by
  obtain ⟨area, metrics, hland, harea⟩ := exists_landed hn.area_sound as hfit
  rw [hland]
  exact hn.of_area harea metrics

/-! ### Between the steps of a pass -/

/-- The requests that reach a node between the steps of a pass. -/
structure Interleaving where
  afterStaging : List Arrival
  afterCount : List Arrival
  afterSync : List Arrival
  afterCheck : List Arrival

namespace Interleaving

variable (i : Interleaving)

def arrivals : Arrivals := ⟨land i.afterStaging, land i.afterCount, land i.afterSync, land i.afterCheck⟩

/-- The node as the staging pass leaves it. -/
def staged (n : Node) : Node := ((backend.performStaging n.settings.stagingBatchSize).eval n).2

def atCount (n : Node) : Node := ((stageThen (land i.afterStaging)).eval n).2

def atSync (n : Node) : Node := landed i.afterCount (i.atCount n)

/-- The node as the synchronisation leaves it. -/
def synced (n : Node) : Node := ((backend.sync (i.atSync n).settings.syncPageSize).eval (i.atSync n)).2

def atCheck (n : Node) : Node := ((syncThen (land i.afterSync)).eval (i.atSync n)).2

def atCleanup (n : Node) : Node := landed i.afterCheck (i.atCheck n)

def trail (n : Node) : List Node :=
  landTrail i.afterStaging (staged n) ++ (landTrail i.afterCount (i.atCount n) ++
    (landTrail i.afterSync (i.synced n) ++ landTrail i.afterCheck (i.atCheck n)))

/-- A staging request comes between the synchronisation and the check, when some row has no stage. -/
def Restages (n : Node) : Prop :=
  ∃ pre post rows, i.afterSync = pre ++ .stage :: post ∧ (landed pre (i.synced n)).area.rows = .ok rows ∧
    ∃ e ∈ rows, e.2.stage = none

/-! ### The rows at each step -/

/-- The rows that are counted, over an area that holds the rows `c`. -/
def counted (c : Contents) : Contents := i.afterStaging.foldl Contents.arrive c.restage

/-- The rows that the synchronisation sees. -/
def handed (c : Contents) : Contents := i.afterCount.foldl Contents.arrive (i.counted c)

def checked (c : Contents) : Contents := i.afterSync.foldl Contents.arrive (i.handed c)

def removed (c : Contents) : Contents := i.afterCheck.foldl Contents.arrive (i.checked c)

variable {i}

theorem sound_atCount (hn : n.Sound c) (hfit : ∀ m ∈ i.trail n, FitsInMemory m.area.tree) :
    (stageThen i.arrivals.afterStaging).eval n = (.ok (.ofStaging c.size c.stageable), i.atCount n) ∧
      (i.atCount n).Sound (i.counted c) := by
  obtain ⟨area, hperform, harea, heval⟩ := eval_stageThen hn.area_sound (eval_land i.afterStaging)
  have hstaged : staged n = { n with area } := congrArg Prod.snd hperform
  have hend : i.atCount n = _ := congrArg Prod.snd heval
  have hland := (hn.of_area harea n.metrics).landed i.afterStaging fun m hm =>
    hfit m (List.mem_append_left _ (hstaged ▸ hm))
  refine ⟨?_, ?_⟩
  · rw [hend]
    exact heval
  · rw [hend]
    exact hland.of_area hland.area_sound _

theorem sound_atSync (hn : n.Sound c) (hfit : ∀ m ∈ i.trail n, FitsInMemory m.area.tree) :
    (i.atSync n).Sound (i.handed c) :=
  (sound_atCount hn hfit).2.landed i.afterCount fun m hm =>
    hfit m (List.mem_append_right _ (List.mem_append_left _ hm))

/-- The synchronisation leaves the area alone. -/
theorem exists_synced (hn : n.Sound c) (hfit : ∀ m ∈ i.trail n, FitsInMemory m.area.tree) :
    ∃ t, (syncThen i.arrivals.afterSync).eval (i.atSync n) = (.ok t, i.atCheck n) ∧
      (i.synced n).area.Sound (i.handed c) ∧ (i.atCheck n).area = (landed i.afterSync (i.synced n)).area := by
  have hsound := sound_atSync hn hfit
  obtain ⟨t, l, hr⟩ := hsound.exists_replayed
  obtain ⟨hsync, heval⟩ := eval_syncThen hsound.holds hr (eval_land i.afterSync)
  have hsynced : i.synced n = { i.atSync n with ledger := l } := congrArg Prod.snd hsync
  have hend : i.atCheck n = _ := congrArg Prod.snd heval
  rw [← hsynced] at heval hend
  refine ⟨t, ?_, ?_, ?_⟩
  · rw [hend]
    exact heval
  · rw [hsynced]
    exact hsound.area_sound
  · rw [hend]
    rfl

/-- What arrives after the synchronisation comes to the rows that it saw. -/
theorem sound_landed_synced (hn : n.Sound c) (hfit : ∀ m ∈ i.trail n, FitsInMemory m.area.tree) {pre post : List Arrival}
    (hsplit : i.afterSync = pre ++ post) :
    (landed pre (i.synced n)).area.Sound (pre.foldl Contents.arrive (i.handed c)) := by
  obtain ⟨_, -, hsynced, -⟩ := exists_synced hn hfit
  refine sound_landed hsynced pre fun m hm => ?_
  have hm : m ∈ landTrail i.afterSync (i.synced n) := by
    rw [hsplit, landTrail_append]
    exact List.mem_append_left _ hm
  exact hfit m (List.mem_append_right _ (List.mem_append_right _ (List.mem_append_left _ hm)))

theorem sound_atCheck (hn : n.Sound c) (hfit : ∀ m ∈ i.trail n, FitsInMemory m.area.tree) :
    (i.atCheck n).area.Sound (i.checked c) := by
  obtain ⟨_, -, -, harea⟩ := exists_synced hn hfit
  rw [harea]
  exact sound_landed_synced hn hfit i.afterSync.append_nil.symm

theorem sound_atCleanup (hn : n.Sound c) (hfit : ∀ m ∈ i.trail n, FitsInMemory m.area.tree) :
    (i.atCleanup n).area.Sound (i.removed c) :=
  sound_landed (sound_atCheck hn hfit) i.afterCheck fun m hm =>
    hfit m (List.mem_append_right _ (List.mem_append_right _ (List.mem_append_right _ hm)))

/-- If no staging request came upon a row without a stage, what the check finds all staged was all handed over. -/
theorem allStaged_handed (hn : n.Sound c) (hfit : ∀ m ∈ i.trail n, FitsInMemory m.area.tree) (hcalm : ¬ i.Restages n)
    (hall : (i.checked c).AllStaged) :
    (i.handed c).AllStaged ∧ (i.checked c).versions = (i.handed c).versions := by
  refine Contents.AllStaged.of_calm (fun pre post hsplit row hrow => ?_) hall
  have hrows := (sound_landed_synced hn hfit hsplit).holds.rows
  obtain ⟨e, he, rfl⟩ := List.mem_map.1 hrow
  rw [Option.isSome_iff_ne_none]
  exact fun hnone => hcalm ⟨pre, post, _, hsplit, hrows, _, List.mem_map_of_mem he, hnone⟩

/-- The check finds the area unchanged only if every row has a stage. -/
theorem allStaged_checked
    (h : (i.checked c).size = ((i.counted c).values.countP fun row => row.stage.isSome) ∧
      ((i.checked c).values.countP fun row => row.stage.isSome) =
        (i.counted c).values.countP fun row => row.stage.isSome) :
    (i.checked c).AllStaged :=
  Contents.allStaged_iff.2 (h.2.trans h.1.symm)

/-- A pass comes to its end whatever reaches the node during it. If it cleans up, then every version that it removes was
handed to this pass's own synchronisation, unless it was pushed after the check, or a staging request that came between
the two gave a row its stage back. -/
theorem cleanup_removes_synced (hn : Serving n) (hfit : ∀ m ∈ i.trail n, FitsInMemory m.area.tree) (now : String) :
    ∃ s m, (runPassWith now i.arrivals).eval n = (.ok s, m) ∧ ∀ p ∈ s, ∀ k ∈ p.cleaned,
      ∃ order rows, (i.atSync n).area.ordered = .ok order ∧
        (backend.sync (i.atSync n).settings.syncPageSize).eval (i.atSync n) =
          (i.atSync n).replay .zero (order.flatMap Row.raws) ∧
        (i.atCleanup n).area.rows = .ok rows ∧ k = rows.length ∧ m.area = .empty ∧
        ∀ e ∈ rows, ∀ v ∈ e.2.versions.values,
          v.raw ∈ order.flatMap Row.raws ∨ v.raw ∈ pushed i.afterCheck ∨ i.Restages n := by
  obtain ⟨c, hc, -⟩ := hn.exists_sound
  by_cases hne : n.area.size = 0
  · exact ⟨none, n, eval_runPassWith_of_empty i.arrivals now hne, nofun⟩
  obtain ⟨hstage, hcounted⟩ := sound_atCount hc hfit
  obtain ⟨t, hsync, -⟩ := exists_synced hc hfit
  have hhanded := sound_atSync hc hfit
  have hchecked := sound_atCheck hc hfit
  have hremoved := sound_atCleanup hc hfit
  obtain ⟨s, m, heval, -, -, hend⟩ := eval_runPassWith i.arrivals now hne hstage (eval_countStaged hcounted.holds)
    (eval_land i.afterCount _) hsync (eval_areaUnchanged hchecked.holds _) (eval_land i.afterCheck _)
  refine ⟨some s, m, heval, fun p hp k hk => ?_⟩
  cases hp
  rcases hend with ⟨-, hunchanged, hcleaned, harea⟩ | ⟨-, hcleaned, -⟩
  · cases hcleaned.symm.trans hk
    -- the check went through, so every row has a stage when it is made
    have hall := allStaged_checked (of_decide_eq_true hunchanged)
    refine ⟨_, _, hhanded.holds.ordered, eval_sync hhanded.holds _, hremoved.holds.rows, ?_, harea, fun e he v hv => ?_⟩
    · rw [List.length_map]
      exact hremoved.holds.size
    · by_cases hrestages : i.Restages n
      · exact .inr (.inr hrestages)
      -- no push since the synchronisation took anything in: it would have left a row without a stage
      obtain ⟨hstaged, hsame⟩ := allStaged_handed hc hfit hrestages hall
      obtain ⟨e', he', rfl⟩ := List.mem_map.1 he
      rcases Contents.mem_versions_arrive (Contents.mem_versions.2 ⟨_, List.mem_map_of_mem he', hv⟩) with hold | hnew
      · rw [hsame] at hold
        exact .inl (hstaged.mem_queue hold)
      · exact .inr (.inl hnew)
  · exact nomatch hcleaned.symm.trans hk

/-! ### A view that comes during the pass -/

/-- Another party's view of the transaction is pushed and staged. -/
def sampleArrivals : List Arrival := [.push [(sampleView 3).encode], .stage]

/-- A node that was pushed one view. -/
def samplePushed : Node :=
  (Request.push [(sampleView 2).encode]).run (.fresh "" .standard ⟨.standard, .started, .empty⟩)

theorem serving_samplePushed : Serving samplePushed :=
  ⟨"", .standard, ⟨.standard, .started, .empty⟩,
    Leads.refl.step (.request (.push [(sampleView 2).encode])) (by decide +kernel)⟩

/-- The other view comes before the rows are counted. -/
def sampleEarly : Interleaving := ⟨sampleArrivals, [], [], []⟩

/-- The other view comes after the synchronisation. -/
def sampleLate : Interleaving := ⟨[], [], sampleArrivals, []⟩

theorem cleanup_removes_synced_sample :
    ∃ p m order rows, (runPassWith "" sampleEarly.arrivals).eval samplePushed = (.ok (some p), m) ∧ p.cleaned = some 1 ∧
      m.area = .empty ∧ (sampleEarly.atSync samplePushed).area.ordered = .ok order ∧
      (sampleEarly.atCleanup samplePushed).area.rows = .ok rows ∧ rows.length = 1 ∧
      ∀ e ∈ rows, ∀ v ∈ e.2.versions.values, v.raw ∈ order.flatMap Row.raws := by
  obtain ⟨s, m, heval, hremoved⟩ := cleanup_removes_synced serving_samplePushed (i := sampleEarly) (by decide +kernel) ""
  have hcleans : ((runPassWith "" sampleEarly.arrivals).eval samplePushed).1.map (fun s => s.bind PassSummary.cleaned) =
      .ok (some 1) := by decide +kernel
  rw [heval] at hcleans
  obtain ⟨p, rfl, hk⟩ := Option.bind_eq_some_iff.1 (Except.ok.inj hcleans)
  obtain ⟨order, rows, horder, -, hrows, hlen, harea, hall⟩ := hremoved p rfl 1 hk
  refine ⟨p, m, order, rows, heval, hk, harea, horder, hrows, hlen.symm, fun e he v hv => ?_⟩
  rcases hall e he v hv with hv | hv | ⟨pre, post, -, hsplit, -⟩
  · exact hv
  · exact nomatch hv
  · exact absurd hsplit.symm (List.append_ne_nil_of_right_ne_nil pre (List.cons_ne_nil _ post))

/-- A view that is pushed and staged between the synchronisation and the check is removed although it was not handed
over. -/
theorem cleanup_loses_version :
    ¬ ∀ (n : Node) (i : Interleaving) (now : String), Serving n → (∀ m ∈ i.trail n, FitsInMemory m.area.tree) →
      ∀ p m, (runPassWith now i.arrivals).eval n = (.ok (some p), m) → ∀ k ∈ p.cleaned,
        ∀ order rows, (i.atSync n).area.ordered = .ok order → (i.atCleanup n).area.rows = .ok rows →
          ∀ e ∈ rows, ∀ v ∈ e.2.versions.values, v.raw ∈ order.flatMap Row.raws := by
  intro hall
  have hcleans : ((runPassWith "" sampleLate.arrivals).eval samplePushed).1.map (fun s => s.bind PassSummary.cleaned) =
      .ok (some 1) := by decide +kernel
  have hsynced : (sampleLate.atSync samplePushed).area.ordered.map (List.flatMap Row.raws) =
      .ok [(sampleView 2).encode] := by decide +kernel
  have hremoved : (sampleLate.atCleanup samplePushed).area.rows.map (List.flatMap fun e => e.2.raws) =
      .ok [(sampleView 2).encode, (sampleView 3).encode] := by decide +kernel
  have hlost : (sampleView 3).encode ∉ [(sampleView 2).encode] := by decide +kernel
  rcases heval : (runPassWith "" sampleLate.arrivals).eval samplePushed with ⟨s, m⟩
  rw [heval] at hcleans
  obtain ⟨s, rfl, hk⟩ := map_eq_ok.1 hcleans
  obtain ⟨p, rfl, hk⟩ := Option.bind_eq_some_iff.1 hk
  obtain ⟨order, horder, hsynced⟩ := map_eq_ok.1 hsynced
  obtain ⟨rows, hrows, hremoved⟩ := map_eq_ok.1 hremoved
  have hmem : (sampleView 3).encode ∈ rows.flatMap fun e => e.2.raws := by
    rw [hremoved]
    exact List.mem_cons_of_mem _ List.mem_cons_self
  obtain ⟨e, he, hraw⟩ := List.mem_flatMap.1 hmem
  obtain ⟨v, hv, hraw⟩ := List.mem_map.1 hraw
  have hin := hall samplePushed sampleLate "" serving_samplePushed (by decide +kernel) p m heval 1 hk order
    rows horder hrows e he v hv
  rw [hraw, hsynced] at hin
  exact hlost hin

end Interleaving

end Node

end TxRecovery
