import TxRecovery.Proofs.Evaluation
import TxRecovery.Proofs.Payload.Merge
import TxRecovery.Resend

/-!
# Whom a resend gives what

`Archive` is what a resend works on: rows, owned keys, and the enclave's answer for each payload and key.
`Archive.verdict` says what one row comes to for a target: no view, a view, or a failure that ends the
run; `Archive.scan` is the views of the rows before the first failure, and that failure. A backend that
answers from the archive examines a row to its verdict (`Backend.eval_examine`).
-/

namespace TxRecovery

structure Archive where
  rows : List StoredTx
  owned : SortedSet PublicKey
  opens : Payload → PublicKey → Except EnclaveError Bytes

namespace Archive

variable (x : Archive) (target : PublicKey) (p : Payload)

/-- The target is given a view: of an own payload if it is listed, of any other if it is a party to it. -/
def Entitled : Prop :=
  if p.sender ∈ x.owned then target ∈ p.recipients else p.sender = target ∨ target ∈ p.recipients

instance : Decidable (x.Entitled target p) := by
  unfold Entitled
  infer_instance

def openingKey : List PublicKey → Except ResendError PublicKey
  | [] => .error (.keyNotFound p.ciphertext)
  | k :: ks =>
    match x.opens p k with
    | .ok _ => .ok k
    | .error .unavailable => .error .enclaveUnavailable
    | .error _ => openingKey ks

/-- An own payload is narrowed if it is standard private; any other names the key that opens it. -/
def view : Except ResendError Payload :=
  if p.sender ∈ x.owned then
    if p.mode.isStandard then (p.forRecipient target).mapError .payload else .ok p
  else (x.openingKey p x.owned.toList).map p.withRecipient

/-- What the owner of the archive is to the payload. -/
def role : Except ResendError Role :=
  if p.sender ∈ x.owned then .ok .sender
  else if p.sender ≠ target ∧ !p.hasRecipient target then .ok .unrelated
  else (x.openingKey p x.owned.toList).map .relay

/-- The view that goes with the role is the one that an entitled target is given. -/
theorem view?_of_role :
    (x.role target p >>= fun r => (r.view? target p).mapError .payload) =
      if x.Entitled target p then (x.view target p).map some else .ok none := by
  unfold role Entitled view
  simp only [← Payload.hasRecipient_iff]
  by_cases howned : p.sender ∈ x.owned
  · simp only [howned, if_true, bind, Except.bind, Role.view?]
    cases p.hasRecipient target
    · rfl
    · cases p.mode.isStandard
      · rfl
      · simp only [Bool.not_true, Bool.false_eq_true, if_false, if_true]
        cases p.forRecipient target <;> rfl
  · simp only [howned, if_false]
    by_cases hparty : p.sender = target ∨ p.hasRecipient target = true
    · have hrelated : ¬ (p.sender ≠ target ∧ (!p.hasRecipient target) = true) := by
        rintro ⟨h1, h2⟩
        rcases hparty with h | h
        · exact h1 h
        · rw [h] at h2
          exact nomatch h2
      rw [if_neg hrelated, if_pos hparty]
      cases x.openingKey p x.owned.toList <;> rfl
    · have hunrelated : p.sender ≠ target ∧ (!p.hasRecipient target) = true := by
        obtain ⟨h1, h2⟩ := not_or.1 hparty
        exact ⟨h1, by simpa using h2⟩
      rw [if_pos hunrelated, if_neg hparty]
      rfl

def verdict (row : StoredTx) : Except ResendError (Option Payload) :=
  match Payload.decode row.raw with
  | .error e => .error (.payload e)
  | .ok p => if x.Entitled target p then (x.view target p).map some else .ok none

theorem openingKey_error {ks : List PublicKey} {e : ResendError} (h : x.openingKey p ks = .error e) :
    e = .keyNotFound p.ciphertext ∨ e = .enclaveUnavailable := by
  induction ks with
  | nil =>
    cases h
    exact .inl rfl
  | cons k ks ih =>
    unfold openingKey at h
    split at h
    · exact nomatch h
    · cases h
      exact .inr rfl
    · exact ih h

/-- A row that reads fails for want of a recipient or of an opening key. -/
theorem verdict_error {row : StoredTx} {p : Payload} {e : ResendError} (hp : Payload.decode row.raw = .ok p)
    (h : x.verdict target row = .error e) :
    e = .payload (.recipientNotFound target) ∨ e = .keyNotFound p.ciphertext ∨ e = .enclaveUnavailable := by
  unfold verdict at h
  simp only [hp] at h
  split at h
  · unfold view Payload.forRecipient at h
    split at h
    · split at h
      · split at h
        · exact nomatch h
        · cases h
          exact .inl rfl
      · exact nomatch h
    · cases hk : x.openingKey p x.owned.toList with
      | ok k =>
        rw [hk] at h
        exact nomatch h
      | error e' =>
        rw [hk] at h
        cases h
        exact .inr (x.openingKey_error p hk)
  · exact nomatch h

/-- The views of the rows before the first one that fails, and its failure. -/
def scan : List StoredTx → List Payload × Option ResendError
  | [] => ([], none)
  | row :: rows =>
    match x.verdict target row with
    | .error e => ([], some e)
    | .ok view => (view.toList ++ (scan rows).1, (scan rows).2)

theorem scan_singleton (row : StoredTx) :
    x.scan target [row] =
      match x.verdict target row with
      | .error e => ([], some e)
      | .ok view => (view.toList, none) := by
  unfold scan
  cases x.verdict target row with
  | error e => rfl
  | ok view => simp only [scan, List.append_nil]

theorem scan_append (xs ys : List StoredTx) :
    x.scan target (xs ++ ys) =
      match x.scan target xs with
      | (views, none) => (views ++ (x.scan target ys).1, (x.scan target ys).2)
      | (views, some e) => (views, some e) := by
  induction xs with
  | nil => rfl
  | cons row xs ih =>
    simp only [List.cons_append, scan]
    cases x.verdict target row with
    | error e => rfl
    | ok view =>
      simp only [ih]
      rcases x.scan target xs with ⟨views, _ | e⟩
      · simp only [List.append_assoc]
      · rfl

def views (rows : List StoredTx) : List Payload :=
  rows.filterMap fun row => (x.verdict target row).toOption.join

theorem views_cons {row : StoredTx} {view : Option Payload} (hv : x.verdict target row = .ok view)
    (rows : List StoredTx) : x.views target (row :: rows) = view.toList ++ x.views target rows := by
  unfold views
  cases view <;> simp [hv, Except.toOption]

theorem scan_eq_views {rows : List StoredTx} (h : (x.scan target rows).2 = none) :
    (∀ row ∈ rows, ∃ view, x.verdict target row = .ok view) ∧
      (x.scan target rows).1 = x.views target rows := by
  induction rows with
  | nil => exact ⟨nofun, rfl⟩
  | cons row rows ih =>
    simp only [scan] at h ⊢
    cases hv : x.verdict target row with
    | error e =>
      rw [hv] at h
      exact nomatch h
    | ok view =>
      rw [hv] at h
      obtain ⟨hall, hviews⟩ := ih h
      exact ⟨List.forall_mem_cons.2 ⟨⟨view, hv⟩, hall⟩, by rw [x.views_cons target hv, ← hviews]⟩

/-- The first row that fails decides the failure. -/
theorem exists_of_scan {rows : List StoredTx} {e : ResendError} (h : (x.scan target rows).2 = some e) :
    ∃ done row later, rows = done ++ row :: later ∧ x.verdict target row = .error e ∧
      (∀ row ∈ done, ∃ view, x.verdict target row = .ok view) ∧
      (x.scan target rows).1 = x.views target done := by
  induction rows with
  | nil => exact nomatch h
  | cons row rows ih =>
    simp only [scan] at h ⊢
    cases hv : x.verdict target row with
    | error e' =>
      rw [hv] at h
      cases h
      exact ⟨[], row, rows, rfl, hv, nofun, rfl⟩
    | ok view =>
      rw [hv] at h
      obtain ⟨done, row', later, hrows, he, hall, hviews⟩ := ih h
      exact ⟨row :: done, row', later, congrArg (row :: ·) hrows, he,
        List.forall_mem_cons.2 ⟨⟨view, hv⟩, hall⟩, by rw [x.views_cons target hv, ← hviews]⟩

end Archive

namespace Backend

variable {σ : Type} {b : Backend σ} {x : Archive} {I : σ → Prop} {s : σ} {p : Payload} {target : PublicKey}
  {limit : Nat} {waiting : List Payload}

def OpensFrom (b : Backend σ) (x : Archive) (I : σ → Prop) : Prop :=
  ∀ s, I s → ∀ p k, b.openPayload p k s = (x.opens p k, s)

theorem eval_openingKey (hx : b.OpensFrom x I) (hs : I s) (ks : List PublicKey) :
    (b.openingKey p ks).eval s = (x.openingKey p ks, s) := by
  induction ks with
  | nil => rfl
  | cons k ks ih =>
    have hopen : (liftM (b.openPayload p k) : Op ResendError σ _).eval s = (.ok (x.opens p k), s) := by
      rw [Op.eval_lift, hx s hs]
    unfold openingKey Archive.openingKey
    rw [Op.eval_bind_ok hopen]
    rcases x.opens p k with (_ | _ | _) | _
    · exact ih
    · rfl
    · exact ih
    · rfl

theorem eval_enqueue (view : Payload) (s : σ) :
    (b.enqueue limit target waiting view).eval s =
      if limit ≤ waiting.length + 1 then (.ok [], (b.publish (waiting ++ [view]) target s).2)
      else (.ok (waiting ++ [view]), s) := by
  unfold enqueue
  simp only [List.length_append, List.length_cons, List.length_nil, Nat.zero_add]
  split
  · rw [Op.eval_bind_ok (Op.eval_lift _ _)]
    rfl
  · rfl

theorem eval_roleOf (hx : b.OpensFrom x I) (hs : I s) (target : PublicKey) (p : Payload) :
    (b.roleOf x.owned target p).eval s = (x.role target p, s) := by
  unfold roleOf Archive.role
  split
  · rfl
  · split
    · rfl
    · have hkey := eval_openingKey (p := p) hx hs x.owned.toList
      cases hk : x.openingKey p x.owned.toList with
      | error e =>
        rw [hk] at hkey
        rw [Op.eval_bind_error hkey]
        rfl
      | ok k =>
        rw [hk] at hkey
        rw [Op.eval_bind_ok hkey]
        rfl

theorem eval_examine (hx : b.OpensFrom x I) (hs : I s) (row : StoredTx) :
    (b.examine x.owned limit target waiting row).eval s =
      match x.verdict target row with
      | .error e => (.error e, s)
      | .ok none => (.ok waiting, s)
      | .ok (some view) => (b.enqueue limit target waiting view).eval s := by
  have hdecode := Op.eval_ofExcept ((Payload.decode row.raw).mapError ResendError.payload) s
  unfold examine Archive.verdict
  cases hp : Payload.decode row.raw with
  | error e =>
    rw [hp] at hdecode
    exact Op.eval_bind_error hdecode _
  | ok p =>
    rw [hp] at hdecode
    rw [Op.eval_bind_ok hdecode]
    have hrole := eval_roleOf hx hs target p
    simp only [← x.view?_of_role target p]
    cases hr : x.role target p with
    | error e =>
      rw [hr] at hrole
      exact Op.eval_bind_error hrole _
    | ok role =>
      rw [hr] at hrole
      rw [Op.eval_bind_ok hrole, Op.eval_bind, Op.eval_ofExcept]
      simp only [bind, Except.bind]
      rcases (role.view? target p).mapError ResendError.payload with _ | _ | _ <;> rfl

end Backend

end TxRecovery
