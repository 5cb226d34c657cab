import TxRecovery.Op

/-!
# Evaluating operations

`Op.eval` of each way to build an operation, so that a program is run by rewriting from the outside
in: `eval_bind` splits a sequence, `eval_bind_ok` and `eval_bind_error` when the first part's outcome
is known.

`Op.Keeps x I`: the operation leaves `I` true of the state, whether it answers or fails. `Op.Yields x I Q`: and
what it answers has `Q`. `Op.Serves`: pages of a fixed list are handed out wherever `I` is true. A loop over
pages is then a loop over the list (`page_cases`).
-/

namespace TxRecovery.Op

variable {ε ε' σ α β : Type} {s s' : σ}

theorem eval_bind (x : Op ε σ α) (f : α → Op ε σ β) (s : σ) :
    (x >>= f).eval s = match x.eval s with
      | (.ok a, s') => (f a).eval s'
      | (.error e, s') => (.error e, s') := by
  show (ExceptT.bindCont f (x s).1) (x s).2 = _
  unfold eval ExceptT.run StateT.run
  rcases x s with ⟨_ | _, _⟩ <;> rfl

theorem eval_bind_ok {x : Op ε σ α} {a : α} (h : x.eval s = (.ok a, s')) (f : α → Op ε σ β) :
    (x >>= f).eval s = (f a).eval s' := by
  rw [eval_bind, h]

theorem eval_bind_error {x : Op ε σ α} {e : ε} (h : x.eval s = (.error e, s')) (f : α → Op ε σ β) :
    (x >>= f).eval s = (.error e, s') := by
  rw [eval_bind, h]

theorem eval_map_ok {x : Op ε σ α} {a : α} (f : α → β) (h : x.eval s = (.ok a, s')) :
    (f <$> x).eval s = (.ok (f a), s') := by
  rw [map_eq_pure_bind, eval_bind_ok h]
  rfl

theorem eval_mk (f : StateM σ (Except ε α)) (s : σ) : eval (ExceptT.mk f) s = f s := rfl

@[simp] theorem eval_pure (a : α) (s : σ) : (pure a : Op ε σ α).eval s = (.ok a, s) := rfl

@[simp] theorem eval_ofExcept (r : Except ε α) (s : σ) : (ofExcept r : Op ε σ α).eval s = (r, s) := rfl

theorem eval_mapError (f : ε → ε') (x : Op ε σ α) (s : σ) :
    (x.mapError f).eval s = ((x.eval s).1.mapError f, (x.eval s).2) :=
  rfl

@[simp] theorem eval_attempt (x : Op ε σ α) (s : σ) :
    (x.attempt : Op ε' σ (Except ε α)).eval s = (.ok (x.eval s).1, (x.eval s).2) := rfl

@[simp] theorem eval_lift (m : StateM σ α) (s : σ) :
    (liftM m : Op ε σ α).eval s = (.ok (m s).1, (m s).2) := rfl

@[simp] theorem eval_get (s : σ) : (get : Op ε σ σ).eval s = (.ok s, s) := rfl

/-! ### Invariants -/

def Keeps (x : Op ε σ α) (I : σ → Prop) : Prop := ∀ s, I s → I (x.eval s).2

theorem Keeps.foldlM {I : σ → Prop} {f : β → α → Op ε σ β} (h : ∀ b a, (f b a).Keeps I) (as : List α)
    (b : β) : (as.foldlM f b).Keeps I := by
  induction as generalizing b with
  | nil => exact fun s hs => hs
  | cons a as ih =>
    intro s hs
    have ha := h b a s hs
    rw [List.foldlM_cons, eval_bind]
    rcases he : (f b a).eval s with ⟨_ | b', s'⟩
    · rw [he] at ha
      exact ha
    · rw [he] at ha
      exact ih b' s' ha

/-- From a state with `I` the operation gets to one with `I`, and what it answers has `Q`. -/
def Yields (x : Op ε σ α) (I : σ → Prop) (Q : α → Prop) : Prop :=
  ∀ s, I s → I (x.eval s).2 ∧ ∀ a, (x.eval s).1 = .ok a → Q a

namespace Yields

variable {I : σ → Prop} {Q : α → Prop} {R : β → Prop} {x : Op ε σ α}

theorem pure {a : α} (ha : Q a) : (Pure.pure a : Op ε σ α).Yields I Q := by
  intro s hs
  refine ⟨hs, fun a' h => ?_⟩
  cases h
  exact ha

theorem throw (e : ε) : (MonadExcept.throw e : Op ε σ α).Yields I Q := fun _ hs => ⟨hs, nofun⟩

theorem throw_bind (e : ε) (f : α → Op ε σ β) : (MonadExcept.throw e >>= f : Op ε σ β).Yields I R :=
  fun _ hs => ⟨hs, nofun⟩

theorem ofExcept (f : ε → ε') (r : Except ε α) :
    (Op.ofExcept (r.mapError f) : Op ε' σ α).Yields I fun a => r = .ok a := by
  refine fun s hs => ⟨hs, fun a ha => ?_⟩
  cases r with
  | error e => exact nomatch ha
  | ok a' =>
    cases ha
    rfl

theorem lift {m : StateM σ α} (h : ∀ s, I s → I (m s).2 ∧ Q (m s).1) : (liftM m : Op ε σ α).Yields I Q := by
  intro s hs
  refine ⟨(h s hs).1, fun a ha => ?_⟩
  cases ha
  exact (h s hs).2

theorem bind {f : α → Op ε σ β} (hx : x.Yields I Q) (hf : ∀ a, Q a → (f a).Yields I R) :
    (x >>= f).Yields I R := by
  intro s hs
  obtain ⟨hkeep, hanswer⟩ := hx s hs
  rw [eval_bind]
  rcases he : x.eval s with ⟨e | a, s'⟩
  · rw [he] at hkeep
    exact ⟨hkeep, nofun⟩
  · rw [he] at hkeep hanswer
    exact hf a (hanswer a rfl) s' hkeep

theorem mapError (f : ε → ε') (hx : x.Yields I Q) : (x.mapError f).Yields I Q := by
  intro s hs
  obtain ⟨hkeep, hanswer⟩ := hx s hs
  rw [eval_mapError]
  refine ⟨hkeep, fun a ha => ?_⟩
  rcases he : (x.eval s).1 with e | a'
  · rw [he] at ha
    exact nomatch ha
  · rw [he] at ha
    cases ha
    exact hanswer a he

theorem foldlM {f : β → α → Op ε σ β} {as : List α} (hf : ∀ b, R b → ∀ a ∈ as, (f b a).Yields I R) {b : β}
    (hb : R b) : (as.foldlM f b).Yields I R := by
  induction as generalizing b with
  | nil => exact .pure hb
  | cons a as ih =>
    rw [List.foldlM_cons]
    exact (hf b hb a List.mem_cons_self).bind fun b' hb' =>
      ih (fun b hb a ha => hf b hb a (List.mem_cons_of_mem _ ha)) hb'

end Yields

theorem eval_foldlM_append (f : β → α → Op ε σ β) (xs ys : List α) (b : β) (s : σ) :
    ((xs ++ ys).foldlM f b).eval s = (xs.foldlM f b >>= fun b => ys.foldlM f b).eval s := by
  rw [List.foldlM_append]

/-! ### Pages -/

def Serves (page : Nat → Nat → Op ε σ (List α)) (I : σ → Prop) (rows : List α) : Prop :=
  ∀ s, I s → ∀ offset max, (page offset max).eval s = (.ok ((rows.drop offset).take max), s)

/-- A page is empty at the end of the rows only, and the next one begins where it ends. -/
theorem page_cases (rows : List α) (offset : Nat) {max : Nat} (hmax : 1 ≤ max) :
    ((rows.drop offset).take max = [] ∧ rows.drop offset = []) ∨
      ∃ a as, (rows.drop offset).take max = a :: as ∧ offset + (as.length + 1) ≤ rows.length ∧
        rows.drop offset = a :: as ++ rows.drop (offset + (as.length + 1)) := by
  cases hpage : (rows.drop offset).take max with
  | nil =>
    refine .inl ⟨rfl, ?_⟩
    rcases List.take_eq_nil_iff.1 hpage with h | h
    · omega
    · exact h
  | cons a as =>
    have hlen := congrArg List.length hpage
    simp only [List.length_take, List.length_drop, List.length_cons] at hlen
    refine .inr ⟨a, as, rfl, by omega, ?_⟩
    have hcut : (rows.drop offset).take (as.length + 1) = a :: as := by
      have h := congrArg (List.take (as.length + 1)) hpage
      have hall : (a :: as).take (as.length + 1) = a :: as := List.take_of_length_le (Nat.le_refl _)
      rwa [List.take_take, Nat.min_eq_left (by omega), hall] at h
    have hsplit := List.take_append_drop (as.length + 1) (rows.drop offset)
    rw [hcut, List.drop_drop] at hsplit
    exact hsplit.symm

end TxRecovery.Op
