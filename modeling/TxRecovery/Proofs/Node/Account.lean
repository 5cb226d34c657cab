import TxRecovery.Proofs.Node.Interleaving
import TxRecovery.Proofs.Notes

/-!
# What the counters of a node stand for

`Account`: beside a node, what it wrote to its staging area and what it asked of the commit path, taken down by
`Backend.noted` and not by the node. `Truthful n x`: the counters of `n` are what `x` comes to. Every action keeps that
(`Truthful.act`).

The counters of a synchronisation are exact. Those of a push are not: one that is refused has written the payloads
before the refused one and leaves without counting them, so the account keeps them apart as `lost`, and as `unseen`
until the rows are counted the next time.
-/

namespace TxRecovery

namespace Node

open Staging (Area Arrival Contents)

variable {n : Node} {c : Contents} {t : Tally} {l : Ledger} {request : ResendRequest}

/-! ### Actions -/

/-- A resend, the rows that it examined counted. -/
def resendCounted (request : ResendRequest) : NodeOp Nat := do
  let total ← resend request
  modify fun n => n.count fun m => { m with rowsExamined := m.rowsExamined + total }
  pure total

theorem exists_resendCounted (n : Node) (request : ResendRequest) :
    ∃ events published examined, ((resendCounted request).eval n).2 = { n with
      events
      metrics := { n.metrics with rowsExamined := examined, batchesPublished := published } } := by
  obtain ⟨events, published, hresend⟩ := n.telling_resend request
  unfold resendCounted
  rw [Op.eval_bind]
  rcases he : (resend request).eval n with ⟨_ | total, m⟩
  · rw [he] at hresend
    exact ⟨events, published, n.metrics.rowsExamined, hresend⟩
  · rw [he] at hresend
    cases hresend
    exact ⟨events, published, _, rfl⟩

/-- What a node does at a request, or when it is time for a recovery pass. -/
inductive Action where
  | idle
  | arrive (a : Arrival)
  | sync
  | cleanup
  | resend (request : ResendRequest)
  | pass (now : String)

namespace Action

/-- The node after the action, whether it succeeded or not. -/
def run : Action → Node → Node
  | idle, n => n
  | arrive a, n => a.run n
  | sync, n => (Node.sync.eval n).2
  | cleanup, n => (Node.cleanup.eval n).2
  | resend request, n => ((resendCounted request).eval n).2
  | pass now, n => ((runPass now).eval n).2

/-- The nodes that an action goes through, where it writes to the stores. -/
def trail : Action → Node → List Node
  | idle, _ => []
  | arrive a, n => a.trail n
  | resend _, _ => []
  | a, n => [a.run n]

end Action

theorem Sound.act (hn : n.Sound c) (a : Action) (hfit : ∀ m ∈ a.trail n, m.Fits) : ∃ c', (a.run n).Sound c' := by
  cases a with
  | idle => exact ⟨c, hn⟩
  | arrive a =>
    obtain ⟨area, metrics, hrun, harea⟩ := exists_run_arrival hn.area_sound a fun m hm => (hfit m hm).area
    rw [Action.run, hrun]
    exact ⟨_, hn.of_area harea metrics⟩
  | sync => exact ⟨c, hn.sync (hfit _ List.mem_cons_self)⟩
  | cleanup => exact ⟨.empty, hn.cleanup⟩
  | resend request =>
    obtain ⟨events, published, examined, hrun⟩ := n.exists_resendCounted request
    rw [Action.run, hrun]
    exact ⟨c, hn.of_stores rfl rfl⟩
  | pass now =>
    obtain ⟨c', -, hc'⟩ := hn.runPass (hfit _ List.mem_cons_self)
    exact ⟨c', hc'⟩

/-! ### Accounts -/

structure Account where
  notes : Notes
  /-- Of the payloads that were written, those whose push was refused at a later one. -/
  lost : List Bytes
  /-- Of these, those that were written since the rows were last counted. -/
  unseen : List Bytes

/-- The notes after a synchronisation of the node. -/
def noteSync (n : Node) (notes : Notes) : Notes := ((backend.noted.sync n.settings.syncPageSize).eval (n, notes)).2.2

namespace Account

def empty : Account := ⟨.none, [], []⟩

/-- The account after a push to the node `n`. -/
def afterPush (x : Account) (n : Node) (payloads : List Bytes) : Account :=
  match (backend.noted.push payloads).eval (n, x.notes) with
  | (.ok _, _, notes) => { x with notes, unseen := [] }
  | (.error _, _, notes) =>
    let written := notes.written.drop x.notes.written.length
    ⟨notes, x.lost ++ written, x.unseen ++ written⟩

/-- The account after a recovery pass of the node `n`. -/
def afterPass (x : Account) (n : Node) : Account :=
  if n.area.size = 0 then x
  else
    match stage.eval n with
    | (.ok _, m) => { x with notes := m.noteSync x.notes, unseen := [] }
    | (.error _, _) => x

def after (x : Account) (n : Node) : Action → Account
  | .idle => x
  | .arrive (.push payloads) => x.afterPush n payloads
  | .arrive .stage => x
  | .sync => { x with notes := n.noteSync x.notes }
  | .cleanup => { x with unseen := [] }
  | .resend _ => x
  | .pass _ => x.afterPass n

end Account

/-- There are no fewer rows than were counted, and no more than there may be with one for each payload `unseen`. -/
structure CountsRows (counted rows : Nat) (unseen : List Bytes) : Prop where
  le : counted ≤ rows
  ge : rows ≤ counted + unseen.length

theorem CountsRows.refl (rows : Nat) : CountsRows rows rows [] := ⟨Nat.le_refl _, Nat.le_refl _⟩

/-- The counters of the node are what its account comes to, but for the payloads that it lost count of. -/
structure Truthful (n : Node) (x : Account) : Prop where
  versions : Counts n.metrics.versionsCommitted n.metrics.privacyViolations x.notes.commits
  staged : n.metrics.payloadsStaged + x.lost.length = x.notes.written.length
  lost : x.lost.Sublist x.notes.written
  rows : CountsRows n.metrics.stagingRows n.area.size x.unseen
  unseen : x.unseen <:+ x.lost

/-! ### What the actions write -/

/-- A push adds at most a row for each payload that it writes. -/
theorem eval_push_noted (n : Node) (payloads : List Bytes) (notes : Notes) :
    ∃ written r m, (backend.noted.push payloads).eval (n, notes) =
        (r, m, { notes with written := notes.written ++ written }) ∧
      (push payloads).eval n = (r, m) ∧ (r = .ok () → written = payloads) ∧
      n.area.size ≤ m.area.size ∧ m.area.size ≤ n.area.size + written.length := by
  obtain ⟨written, r, m, hnoted, hplain, -, hall⟩ := backend.eval_push_noted payloads n notes
  have hkeep : ∀ h k v, (backend.noted.upsert h k v).Keeps fun p : Node × Notes =>
      n.area.size ≤ p.1.area.size ∧ p.1.area.size + notes.written.length ≤ n.area.size + p.2.written.length := by
    rintro h k v ⟨m, notes'⟩ ⟨hle, hge⟩
    show _ ∧ _
    unfold Backend.noted
    rw [Op.eval_noting, eval_upsert]
    cases hup : m.area.upsert h k v with
    | error e => exact ⟨hle, hge⟩
    | ok p =>
      obtain ⟨hgrow, hstep⟩ := Area.size_of_upsert hup
      simp only [List.length_append, List.length_singleton]
      have hle : n.area.size ≤ m.area.size := hle
      have hge : m.area.size + notes.written.length ≤ n.area.size + notes'.written.length := hge
      omega
  have hsize := Backend.keeps_push hkeep payloads (n, notes) ⟨Nat.le_refl _, Nat.le_refl _⟩
  rw [hnoted] at hsize
  simp only [List.length_append] at hsize
  exact ⟨written, r, m, hnoted, hplain, hall, hsize.1, by omega⟩

/-- A synchronisation counts the calls that it makes. -/
theorem exists_noteSync (hc : n.area.Holds c) (hr : n.ledger.Replayed .zero c.queue t l) (notes : Notes) :
    ∃ calls, n.noteSync notes = { notes with commits := notes.commits ++ calls } ∧
      Counts t.committed t.violations calls := by
  obtain ⟨calls, r, m, hrun, hh⟩ := Backend.eval_sync_noted (serves_stagedPage hc) (fun _ => eval_areaSize_of)
    (keeps_commit n.area) (hc.size ▸ c.length_ordered_le) rfl notes
  obtain ⟨hnoted, hplain⟩ := hrun n.settings.syncPageSize
  rw [eval_sync_of_pageSize hc hr] at hplain
  cases hplain
  exact ⟨calls, by rw [noteSync, hnoted], hh.counts⟩

namespace Truthful

variable {x : Account}

theorem fresh (version : String) (settings : Settings) (keyring : Keyring) :
    Truthful (.fresh version settings keyring) .empty :=
  ⟨⟨rfl, rfl, nofun⟩, rfl, .refl _, .refl _, List.suffix_refl _⟩

theorem push (hx : Truthful n x) (hn : n.Sound c) (payloads : List Bytes)
    (hfit : ∀ m ∈ (Arrival.push payloads).trail n, m.Fits) :
    Truthful ((Arrival.push payloads).run n) (x.afterPush n payloads) := by
  obtain ⟨written, r, m, hnoted, hplain, hall, hle, hge⟩ := n.eval_push_noted payloads x.notes
  obtain ⟨area, hm, -⟩ := eval_push hn.area_sound payloads fun k => (forall_take_of_trail hfit k).area
  rw [hplain] at hm
  cases hm
  unfold Arrival.run Arrival.op Account.afterPush
  rw [hnoted]
  cases r with
  | ok =>
    -- all is counted, and the rows anew
    rw [Op.eval_bind_ok hplain]
    refine ⟨hx.versions, ?_, hx.lost.trans (List.sublist_append_left _ _), .refl _, List.nil_suffix⟩
    show n.metrics.payloadsStaged + payloads.length + x.lost.length = (x.notes.written ++ written).length
    rw [List.length_append, ← hx.staged, hall rfl]
    omega
  | error e =>
    -- nothing is, whatever was written
    have hdrop : (x.notes.written ++ written).drop x.notes.written.length = written := List.drop_left
    rw [Op.eval_bind_error hplain]
    simp only [hdrop]
    refine ⟨hx.versions, ?_, hx.lost.append (.refl _), ⟨Nat.le_trans hx.rows.le hle, ?_⟩, ?_⟩
    · simp only [List.length_append, ← hx.staged]
      omega
    · have hge : area.size ≤ n.area.size + written.length := hge
      have hrows := hx.rows.ge
      simp only [List.length_append]
      omega
    · obtain ⟨seen, hseen⟩ := hx.unseen
      exact ⟨seen, by rw [← hseen, List.append_assoc]⟩

/-- A staging pass changes no number of rows. -/
theorem stage (hx : Truthful n x) (hn : n.Sound c) : Truthful (Arrival.stage.run n) x := by
  obtain ⟨area, -, hsound, heval⟩ := eval_stageThen (f := id) hn.area_sound (Op.eval_pure ())
  have hstage : Node.stage.eval n = _ := heval
  have hsize : area.size = n.area.size := by rw [hsound.holds.size, c.size_restage, hn.holds.size]
  have hrows := hx.rows
  rw [← hsize] at hrows
  unfold Arrival.run Arrival.op
  rw [Op.eval_bind_ok hstage]
  exact ⟨hx.versions, hx.staged, hx.lost, hrows, hx.unseen⟩

theorem sync (hx : Truthful n x) (hn : n.Sound c) :
    Truthful (Node.sync.eval n).2 { x with notes := n.noteSync x.notes } := by
  obtain ⟨t, l, hr⟩ := hn.exists_replayed
  obtain ⟨calls, hnotes, hcounts⟩ := exists_noteSync hn.holds hr x.notes
  obtain ⟨-, heval⟩ := eval_syncThen (f := id) hn.holds hr (Op.eval_pure ())
  have hsync : Node.sync.eval n = _ := heval
  rw [hsync, hnotes]
  exact ⟨hx.versions.append hcounts, hx.staged, hx.lost, hx.rows, hx.unseen⟩

theorem cleanup (hx : Truthful n x) : Truthful (Node.cleanup.eval n).2 { x with unseen := [] } := by
  rw [eval_cleanup]
  exact ⟨hx.versions, hx.staged, hx.lost, .refl _, List.nil_suffix⟩

theorem pass (hx : Truthful n x) (hn : n.Sound c) (now : String) :
    Truthful ((runPass now).eval n).2 (x.afterPass n) := by
  by_cases hne : n.area.size = 0
  · rw [eval_runPass_of_empty now hne, Account.afterPass, if_pos hne]
    exact hx
  · obtain ⟨area, -, hsound, heval⟩ := eval_stageThen (f := id) hn.area_sound (Op.eval_pure ())
    have hstage : Node.stage.eval n = _ := heval
    obtain ⟨t, l, hr⟩ := (hn.restage hsound.holds n.metrics).exists_replayed
    obtain ⟨calls, hnotes, hcounts⟩ := exists_noteSync (n := { n with area }.count fun m =>
      { m with stagingPasses := m.stagingPasses + 1 }) hsound.holds hr x.notes
    obtain ⟨s, m, hpass, -, hmetrics, -⟩ := eval_runPass_counted now hn hne hr
    have hafter : x.afterPass n =
        { x with notes := { x.notes with commits := x.notes.commits ++ calls }, unseen := [] } := by
      rw [Account.afterPass, if_neg hne, hstage, ← hnotes]
      rfl
    rw [hpass, hafter]
    refine ⟨?_, ?_, hx.lost, ?_, List.nil_suffix⟩
    all_goals rw [hmetrics]
    · exact hx.versions.append hcounts
    · exact hx.staged
    · exact .refl _

/-- What an action does, its account tells. -/
theorem act (hx : Truthful n x) (hn : n.Sound c) (a : Action) (hfit : ∀ m ∈ a.trail n, m.Fits) :
    Truthful (a.run n) (x.after n a) := by
  cases a with
  | idle => exact hx
  | arrive a =>
    cases a with
    | push payloads => exact hx.push hn payloads hfit
    | stage => exact hx.stage hn
  | sync => exact hx.sync hn
  | cleanup => exact hx.cleanup
  | resend request =>
    obtain ⟨events, published, examined, hrun⟩ := n.exists_resendCounted request
    rw [Action.run, hrun]
    exact ⟨hx.versions, hx.staged, hx.lost, hx.rows, hx.unseen⟩
  | pass now => exact hx.pass hn now

end Truthful

end Node

end TxRecovery
