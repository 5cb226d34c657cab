import TxRecovery.Node.Pass
import TxRecovery.Proofs.Ledger.Replay
import TxRecovery.Proofs.Staging.Area
import TxRecovery.Proofs.Sync

/-!
# What requests do to a node

Over a node whose staging area holds the rows `c`: a push merges one payload after the other
(`eval_stagePayload`), a staging pass restages the rows (`eval_performStaging`), and a synchronisation
replays the payloads of the staged rows, in commit order, over the ledger (`eval_sync`).
-/

namespace TxRecovery

namespace Node

open Staging (Contents Row Version)

variable {n : Node} {c : Contents} {t : Tally} {ε α : Type}

theorem eval_writing_ok {f : Node → Except ε (α × Node)} {a : α} {n' : Node} (h : f n = .ok (a, n')) :
    (writing f).eval n = (.ok a, n') := by
  simp only [writing, Op.eval_mk, h]

theorem eval_writing_error {f : Node → Except ε (α × Node)} {e : ε} (h : f n = .error e) :
    (writing f).eval n = (.error e, n) := by
  simp only [writing, Op.eval_mk, h]

/-! ### Synchronisation -/

/-- The payloads committed in order over the ledger. -/
def replay (n : Node) (t : Tally) (raws : List Bytes) : Except ResendError Tally × Node :=
  ((n.ledger.replay t raws).1.mapError .commit, { n with ledger := (n.ledger.replay t raws).2 })

theorem replay_append (n : Node) (t : Tally) (xs ys : List Bytes) :
    n.replay t (xs ++ ys) =
      match n.replay t xs with
      | (.ok t', n') => n'.replay t' ys
      | (.error e, n') => (.error e, n') := by
  unfold replay
  rw [Ledger.replay_append]
  rcases n.ledger.replay t xs with ⟨_ | t', l'⟩ <;> rfl

theorem eval_commit (n : Node) (raw : Bytes) : (backend.commit raw).eval n =
    match n.ledger.commit raw with
    | .ok (h, l) => (.ok h, { n with ledger := l })
    | .error e => (.error e, n) := by
  cases hc : n.ledger.commit raw with
  | error e => exact eval_writing_error (by simp only [hc, bind, Except.bind])
  | ok p => exact eval_writing_ok (by simp only [hc, bind, Except.bind])

theorem keeps_commit (a : Staging.Area) (raw : Bytes) : (backend.commit raw).Keeps fun m => m.area = a := by
  intro m hm
  rw [eval_commit]
  split <;> exact hm

theorem eval_commitVersion (n : Node) (t : Tally) (v : Version) :
    (backend.commitVersion t v).eval n = n.replay t [v.raw] := by
  rw [Backend.eval_commitVersion, eval_commit]
  unfold replay Ledger.replay
  rcases n.ledger.commit v.raw with (_ | _ | _) | _ <;> rfl

/-- A loop each of whose steps replays some payloads replays them all. -/
theorem eval_foldlM_replay {β : Type} {f : Tally → β → NodeOp Tally} {g : β → List Bytes}
    (h : ∀ n t x, (f t x).eval n = n.replay t (g x)) (xs : List β) (n : Node) (t : Tally) :
    (xs.foldlM f t).eval n = n.replay t (xs.flatMap g) := by
  induction xs generalizing n t with
  | nil => rfl
  | cons x xs ih =>
    rw [List.foldlM_cons, Op.eval_bind, h, List.flatMap_cons, replay_append]
    rcases n.replay t (g x) with ⟨_ | t', n'⟩
    · rfl
    · exact ih n' t'

theorem eval_commitRow (n : Node) (t : Tally) (row : Row) :
    (backend.commitRow t row).eval n = n.replay t row.raws := by
  have h := eval_foldlM_replay eval_commitVersion row.versions.values n t
  rwa [← List.map_eq_flatMap] at h

theorem serves_stagedPage (hc : n.area.Holds c) :
    Op.Serves backend.stagedPage (fun m => m.area = n.area) c.ordered := by
  intro m hm offset max
  show (m.area.page offset max, m) = _
  rw [hm, hc.page]

theorem eval_areaSize_of {a : Staging.Area} {m : Node} (hm : m.area = a) :
    backend.areaSize.eval m = (.ok a.size, m) := by
  rw [← hm]
  rfl

theorem eval_sync (hc : n.area.Holds c) (pageSize : Nat) :
    (backend.sync pageSize).eval n = n.replay .zero c.queue := by
  rw [Backend.eval_sync_eq_foldlM (serves_stagedPage hc) (fun _ => eval_areaSize_of) (keeps_commit n.area)
    (hc.size ▸ c.length_ordered_le) pageSize rfl, eval_foldlM_replay eval_commitRow, Contents.queue]

/-! ### Staging -/

theorem eval_performStaging (hc : n.area.Holds c) (hsize : c.size < UInt64.size) (batch : Nat) :
    ∃ a, (backend.performStaging batch).eval n =
        (.ok (.ofStaging c.size c.stageable), { n with area := a }) ∧
      a.Holds c.restage := by
  obtain ⟨a, ha, hholds⟩ := hc.assignStages hsize batch
  refine ⟨a, ?_, hholds⟩
  have hassign : ((backend.assignStages batch).mapError ResendError.db).eval n =
      (.ok (), { n with area := a }) := by
    rw [Op.eval_mapError, show (backend.assignStages batch).eval n = (.ok (), { n with area := a }) from
      eval_writing_ok (by simp only [ha, bind, Except.bind])]
    rfl
  have hcount : (backend.countStaged.mapError ResendError.db).eval { n with area := a } =
      (.ok c.stageable, { n with area := a }) := by
    rw [Op.eval_mapError]
    show ((a.countStaged).mapError _, _) = _
    rw [hholds.countStaged]
    rfl
  have htotal : (backend.areaSize.mapError ResendError.db).eval { n with area := a } =
      (.ok c.size, { n with area := a }) := by
    rw [← c.size_restage, ← hholds.size]
    rfl
  unfold Backend.performStaging
  rw [Op.eval_bind_ok hassign, Op.eval_bind_ok htotal, Op.eval_bind_ok hcount]
  rfl

/-! ### Pushes -/

theorem eval_stagePayload_error {raw : Bytes} {e : PayloadError} (hp : Payload.decode raw = .error e) :
    (backend.stagePayload raw).eval n = (.error (.payload e), n) := by
  unfold Backend.stagePayload
  rw [Op.eval_bind_error (by rw [hp]; rfl)]

theorem eval_upsert (n : Node) (h : TxHash) (k : Staging.ViewKey) (v : Version) : (backend.upsert h k v).eval n =
    match n.area.upsert h k v with
    | .ok (row, area) => (.ok row, { n with area })
    | .error e => (.error e, n) := by
  cases hup : n.area.upsert h k v with
  | error e => exact eval_writing_error (by simp only [hup, bind, Except.bind])
  | ok p => exact eval_writing_ok (by simp only [hup, bind, Except.bind])

theorem eval_stagePayload_ok {raw : Bytes} {p : Payload} (hp : Payload.decode raw = .ok p) :
    (backend.stagePayload raw).eval n =
      match n.area.upsert p.hash (.ofPayload p) (.ofPayload raw p) with
      | .ok (_, area) => (.ok (), { n with area })
      | .error e => (.error (.db e), n) := by
  have hdecode : (Op.ofExcept ((Payload.decode raw).mapError ResendError.payload) : NodeOp Payload).eval n =
      (.ok p, n) := by
    rw [hp]
    rfl
  unfold Backend.stagePayload
  rw [Op.eval_bind_ok hdecode, Op.eval_bind, Op.eval_mapError, eval_upsert]
  rcases n.area.upsert p.hash (.ofPayload p) (.ofPayload raw p) with _ | ⟨_, _⟩ <;> rfl

theorem eval_stagePayload_of_upsert {raw : Bytes} {p : Payload} {row : Row} {area : Staging.Area}
    (hp : Payload.decode raw = .ok p)
    (hup : n.area.upsert p.hash (.ofPayload p) (.ofPayload raw p) = .ok (row, area)) :
    (backend.stagePayload raw).eval n = (.ok (), { n with area }) := by
  rw [eval_stagePayload_ok hp, hup]

theorem eval_stagePayload {raw : Bytes} {p : Payload} (hc : n.area.Holds c)
    (hp : Payload.decode raw = .ok p) :
    (backend.stagePayload raw).eval n =
      (.ok (), { n with area := n.area.put p.hash.bytes (c.merged raw p) }) :=
  eval_stagePayload_of_upsert hp (hc.upsert p.hash (.ofPayload p) (.ofPayload raw p))

end Node

end TxRecovery
