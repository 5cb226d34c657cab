import TxRecovery.Proofs.Api.Push
import TxRecovery.Proofs.Node.Account

/-!
# What the counters of a node tell

A request makes the node do what can be told from the request alone (`snd_handle`), so that a node which answers
requests and runs passes is one that goes from action to action. Over a whole life of it the counters of versions are
exact, and the other two are off by no more than what refused pushes have written (`counters_tell`). That much they can
be off by: `refused_push_uncounted`.
-/

namespace TxRecovery

open Node (Account Action)

namespace Api

open Http (Request)
open Staging (Arrival)

/-! ### Requests -/

/-- What a request to the path makes the node do. -/
def actionAt (path : String) (request : Request) : Action :=
  match path with
  | "/resendBatch" =>
    if request.method = "POST" then
      match readBody ResendRequest.record request with
      | .ok r => .resend r
      | .error _ => .idle
    else .idle
  | "/pushBatch" =>
    if request.method = "POST" then
      match payloadsOf request with
      | some payloads => .arrive (.push payloads)
      | none => .idle
    else .idle
  | "/staging/perform" => if request.method = "POST" then .arrive .stage else .idle
  | "/sync/perform" => if request.method = "POST" then .sync else .idle
  | "/staging" => if request.method = "DELETE" then .cleanup else .idle
  | _ => .idle

/-- What a request makes the node do, which the request alone tells. -/
def action (request : Request) : Action := actionAt request.path request

theorem snd_status (now : String) (n : Node) : (status now n).2 = n := by
  have hledger : (Node.backend.ledgerSize.mapError ResendError.db).eval n = (.ok n.ledger.size, n) := rfl
  have hcount : (Node.countStaged.eval n).2 = n := rfl
  unfold status
  rw [snd_respond, Op.eval_bind_ok hledger, Op.eval_bind_ok (Node.eval_areaSize n), Op.eval_bind]
  rcases hstaged : Node.countStaged.eval n with ⟨_ | staged, m⟩
  all_goals
    rw [hstaged] at hcount
    exact hcount

theorem snd_resend (request : Request) (n : Node) : (resend request n).2 =
    (match readBody ResendRequest.record request with
      | .ok r => Action.resend r
      | .error _ => .idle).run n := by
  unfold resend
  cases readBody ResendRequest.record request with
  | error _ => rfl
  | ok r => exact snd_respond _ _ n

/-- A path that is there for one method, and for no other. -/
theorem snd_method {method : String} (hmethod : method ≠ "GET") {a : Action} {n m : Node} (hm : m = a.run n)
    (request : Request) :
    (if request.method = method ∨ request.method = "HEAD" ∧ method = "GET" then m else n) =
      (if request.method = method then a else .idle).run n := by
  simp only [hmethod, and_false, or_false]
  split
  · exact hm
  · rfl

theorem snd_route {now : String} {r : Route} (hr : r ∈ routes now) (request : Request) (n : Node) :
    (if request.method = r.method ∨ request.method = "HEAD" ∧ r.method = "GET" then (r.handle request n).2 else n) =
      (actionAt r.path request).run n := by
  simp only [routes, List.mem_cons, List.not_mem_nil, or_false] at hr
  rcases hr with rfl | rfl | rfl | rfl | rfl | rfl | rfl | rfl
  · exact ite_self n
  · dsimp only
    rw [snd_status]
    exact ite_self n
  · exact snd_method (by decide) (snd_resend request n) request
  · refine snd_method (by decide) ?_ request
    dsimp only
    rw [snd_push]
    cases payloadsOf request <;> rfl
  · exact snd_method (by decide) (snd_stage n) request
  · exact snd_method (by decide) (snd_respond _ _ n) request
  · exact snd_method (by decide) (snd_respond _ _ n) request
  · exact ite_self n

theorem snd_dispatch (now : String) (request : Request) (n : Node) :
    (dispatch now request n).2 = (action request).run n := by
  unfold dispatch action
  cases hr : route? now request with
  | none =>
    have hpath : ∀ r ∈ routes now, request.path ≠ r.path := fun r hmem heq => by
      simpa [heq] using List.find?_eq_none.1 hr r hmem
    simp only [routes, List.forall_mem_cons] at hpath
    unfold actionAt
    dsimp only
    split
    all_goals first | rfl | simp_all
  | some r =>
    have hpath : r.path = request.path := by simpa using List.find?_some hr
    rw [← hpath, ← snd_route (List.mem_of_find?_eq_some hr)]
    dsimp only
    by_cases hmethod : request.method = r.method
    · rw [if_pos hmethod, if_pos (.inl hmethod)]
    · rw [if_neg hmethod]
      by_cases hhead : request.method = "HEAD" ∧ r.method = "GET"
      · rw [if_pos hhead, if_pos (.inr hhead)]
      · rw [if_neg hhead, if_neg (not_or.2 ⟨hmethod, hhead⟩)]

/-- A request that only asks for permission does nothing, whatever its path. -/
theorem snd_handle (now : String) (request : Request) (n : Node) :
    (handle now request n).2 = (action request).run n := by
  unfold handle
  split
  · rename_i hoptions
    have hidle : action request = .idle := by
      simp only [action, actionAt, hoptions, show ¬ "OPTIONS" = "POST" by decide, show ¬ "OPTIONS" = "DELETE" by decide,
        if_false]
      split <;> rfl
    rw [hidle]
    rfl
  · exact snd_dispatch now request n

/-! ### Lives -/

/-- What may happen to a node: a request, or a recovery pass when it is time for one. -/
inductive Happening where
  | request (now : String) (r : Request)
  | pass (now : String)

namespace Happening

def run : Happening → Node → Node
  | request now r, n => (handle now r n).2
  | pass now, n => ((Node.runPass now).eval n).2

def action : Happening → Action
  | request _ r => Api.action r
  | pass now => .pass now

theorem run_eq (h : Happening) (n : Node) : h.run n = h.action.run n := by
  cases h with
  | request now r => exact snd_handle now r n
  | pass now => rfl

end Happening

/-- A node that was started over empty stores, and the account of all that has happened to it since. -/
inductive Lives : Node → Account → Prop where
  | fresh (version : String) (settings : Settings) (keyring : Keyring) :
    Lives (.fresh version settings keyring) .empty
  | step {n : Node} {x : Account} (h : Happening) (hn : Lives n x) (hfit : ∀ m ∈ h.action.trail n, m.Fits) :
    Lives (h.run n) (x.after n h.action)

variable {n : Node} {x : Account}

theorem Lives.truthful (hn : Lives n x) : n.Truthful x ∧ ∃ c, n.Sound c := by
  induction hn with
  | fresh version settings keyring =>
    exact ⟨.fresh version settings keyring, .empty, Node.sound_fresh version settings keyring⟩
  | step h _ hfit ih =>
    obtain ⟨hx, c, hc⟩ := ih
    rw [h.run_eq]
    exact ⟨hx.act hc h.action hfit, hc.act h.action hfit⟩

/-- Whatever has happened to a node, its counters of versions are exact. The one of pushed payloads lacks those that a
refused push wrote, and the gauge of rows may lack such of them as were written since the rows were last counted. -/
theorem counters_tell (hn : Lives n x) :
    n.metrics.versionsCommitted = x.notes.commits.countP Call.accepted ∧
    n.metrics.privacyViolations = x.notes.commits.countP (fun call => !call.accepted) ∧
    n.metrics.payloadsStaged + x.lost.length = x.notes.written.length ∧ x.lost.Sublist x.notes.written ∧
    n.metrics.stagingRows ≤ n.area.size ∧ n.area.size ≤ n.metrics.stagingRows + x.unseen.length ∧
    x.unseen <:+ x.lost := by
  obtain ⟨hx, -⟩ := hn.truthful
  exact ⟨hx.versions.accepted, hx.versions.rejected, hx.staged, hx.lost, hx.rows.le, hx.rows.ge, hx.unseen⟩

/-! ### A refused push -/

theorem action_forward {raws : List Bytes}
    (h : (Utf8.encode (forward (raws.map Hex.encode)).body).length ≤ bodyLimit) :
    action (forward (raws.map Hex.encode)) = .arrive (.push raws) := by
  have hpayloads : payloadsOf (forward (raws.map Hex.encode)) = some raws := by
    rw [payloadsOf, readBody_posted, if_neg (Nat.not_lt.2 h)]
    simp only [PushBody.decode_hex]
    rfl
  have hmethod : (forward (raws.map Hex.encode)).method = "POST" := rfl
  simp only [action, path_forward, actionAt, hmethod, if_true, hpayloads]

theorem Lives.push {raws : List Bytes} (hn : Lives n x)
    (h : (Utf8.encode (forward (raws.map Hex.encode)).body).length ≤ bodyLimit)
    (hfit : ∀ m ∈ (Arrival.push raws).trail n, m.Fits) :
    Lives ((Arrival.push raws).run n) (x.afterPush n raws) := by
  have haction : (Happening.request "" (forward (raws.map Hex.encode))).action = .arrive (.push raws) :=
    action_forward h
  have hstep := hn.step (.request "" (forward (raws.map Hex.encode))) (by rwa [haction])
  rwa [Happening.run_eq, haction] at hstep

/-- A node before anything has happened to it. -/
def sampleStart : Node := .fresh "" .standard ⟨.standard, .started, .empty⟩

/-- A view of a transaction, and a byte that is no payload. -/
def halfReadable : List Bytes := [(Node.sampleView 3).encode, [0]]

def refusedNode : Node := (Arrival.push halfReadable).run sampleStart

def refusedAccount : Account := Account.empty.afterPush sampleStart halfReadable

theorem lives_refused : Lives refusedNode refusedAccount :=
  (Lives.fresh _ _ _).push (by rw [length_posted]; decide +kernel) (by decide +kernel)

/-- Neither the counter of pushed payloads nor the gauge of rows is exact. -/
theorem refused_push_uncounted :
    ¬ (∀ n x, Lives n x → n.metrics.payloadsStaged = x.notes.written.length) ∧
      ¬ (∀ n x, Lives n x → n.metrics.stagingRows = n.area.size) := by
  refine ⟨fun h => ?_, fun h => ?_⟩
  · exact absurd (h _ _ lives_refused) (by decide +kernel)
  · exact absurd (h _ _ lives_refused) (by decide +kernel)

/-- Another party's view, the push of which is answered. -/
def readable : List Bytes := [(Node.sampleView 2).encode]

def answeredNode : Node := (Arrival.push readable).run refusedNode

def answeredAccount : Account := refusedAccount.afterPush refusedNode readable

/-- A pass commits both views. -/
def passedNode : Node := (Happening.pass "").run answeredNode

def passedAccount : Account := answeredAccount.after answeredNode (.pass "")

theorem lives_passed : Lives passedNode passedAccount := by
  have hanswered : Lives answeredNode answeredAccount :=
    lives_refused.push (by rw [length_posted]; decide +kernel) (by decide +kernel)
  exact hanswered.step (.pass "") (by decide +kernel)

/-- Of the two views one was counted when it was pushed. -/
theorem counters_tell_sample : Lives passedNode passedAccount ∧
    passedAccount.notes.written.length = 2 ∧ passedAccount.lost.length = 1 ∧
    passedNode.metrics.payloadsStaged = 1 ∧ passedNode.metrics.versionsCommitted = 2 := by
  obtain ⟨hcommitted, -, hstaged, -⟩ := counters_tell lives_passed
  have hwritten : passedAccount.notes.written.length = 2 ∧ passedAccount.lost.length = 1 := by decide +kernel
  have haccepted : passedAccount.notes.commits.countP Call.accepted = 2 := by decide +kernel
  exact ⟨lives_passed, hwritten.1, hwritten.2, by omega, hcommitted.trans haccepted⟩

end Api

end TxRecovery
