import TxRecovery.Proofs.Staging.Contents
import TxRecovery.Proofs.Sync

/-!
# Taking note of what recovery writes

`Backend.noted`: the same backend, with `Notes` beside its state that say which payloads were written to the staging
area and which calls the commit path got, each with its answer. Nothing else changes, so the notes of a run are about
the run without them. A synchronisation hands over the payloads of the staged rows in their order, up to the first
failure that is not one of privacy (`Handed`, `eval_sync_noted`), and counts the calls (`Handed.counts`); a push writes
the payloads up to the first that is refused (`eval_push_noted`).
-/

namespace TxRecovery

/-- What was asked of the commit path, and how it answered. -/
abbrev Call := Bytes × Except CommitError TxHash

structure Notes where
  /-- The payloads that were written to the staging area. -/
  written : List Bytes
  commits : List Call

def Notes.none : Notes := ⟨[], []⟩

namespace Op

variable {ε σ ν α : Type}

/-- The operation on the first of two states, whose answer is noted in the second. -/
def noting (x : Op ε σ α) (note : Except ε α → ν → ν) : Op ε (σ × ν) α :=
  ExceptT.mk fun s => ((x.eval s.1).1, (x.eval s.1).2, note (x.eval s.1).1 s.2)

def beside (x : StateM σ α) : StateM (σ × ν) α := fun s => ((x s.1).1, (x s.1).2, s.2)

@[simp] theorem eval_noting (x : Op ε σ α) (note : Except ε α → ν → ν) (s : σ × ν) :
    (x.noting note).eval s = ((x.eval s.1).1, (x.eval s.1).2, note (x.eval s.1).1 s.2) := rfl

end Op

namespace Backend

variable {σ : Type} {b : Backend σ}

def noted (b : Backend σ) : Backend (σ × Notes) where
  enclaveStatus := Op.beside b.enclaveStatus
  ownedKeys := Op.beside b.ownedKeys
  openPayload p k := Op.beside (b.openPayload p k)
  ledgerSize := b.ledgerSize.noting fun _ => id
  ledgerPage offset max := (b.ledgerPage offset max).noting fun _ => id
  publish views k := Op.beside (b.publish views k)
  upsert h k v := (b.upsert h k v).noting fun
    | .ok _, notes => { notes with written := notes.written ++ [v.raw] }
    | .error _, notes => notes
  areaSize := b.areaSize.noting fun _ => id
  countStaged := b.countStaged.noting fun _ => id
  assignStages batch := (b.assignStages batch).noting fun _ => id
  stagedPage offset max := (b.stagedPage offset max).noting fun _ => id
  clearArea batch := (b.clearArea batch).noting fun _ => id
  commit raw := (b.commit raw).noting fun answer notes =>
    { notes with commits := notes.commits ++ [(raw, answer)] }

end Backend

/-! ### Calls of the commit path -/

/-- The call was answered with the hash of what is stored. -/
def Call.accepted : Call → Bool
  | (_, .ok _) => true
  | (_, .error _) => false

/-- The call was answered with a refusal on grounds of privacy. -/
def Call.refused : Call → Bool
  | (_, .error (.privacy _)) => true
  | _ => false

/-- The call failed, and not on grounds of privacy. -/
def Call.failed : Call → Bool
  | (_, .ok _) => false
  | (_, .error (.privacy _)) => false
  | (_, .error _) => true

theorem Call.accepted_eq_not_refused {c : Call} (h : c.failed = false) : c.accepted = !c.refused := by
  obtain ⟨raw, (_ | _ | _) | _⟩ := c
  · rfl
  · exact nomatch h
  · exact nomatch h
  · rfl

/-- So many of the calls were accepted and so many refused, and none failed. -/
structure Counts (committed violations : Nat) (calls : List Call) : Prop where
  accepted : committed = calls.countP Call.accepted
  refused : violations = calls.countP Call.refused
  answered : ∀ c ∈ calls, c.failed = false

theorem Counts.append {committed violations committed' violations' : Nat} {calls calls' : List Call}
    (h : Counts committed violations calls) (h' : Counts committed' violations' calls') :
    Counts (committed + committed') (violations + violations') (calls ++ calls') := by
  refine ⟨?_, ?_, List.forall_mem_append.2 ⟨h.answered, h'.answered⟩⟩
  · rw [List.countP_append, ← h.accepted, ← h'.accepted]
  · rw [List.countP_append, ← h.refused, ← h'.refused]

/-- What is not accepted is refused. -/
theorem Counts.rejected {committed violations : Nat} {calls : List Call} (h : Counts committed violations calls) :
    violations = calls.countP fun c => !c.accepted := by
  rw [h.refused]
  exact List.countP_congr fun c hc => by rw [Call.accepted_eq_not_refused (h.answered c hc), Bool.not_not]

theorem Tally.note_eq_ok {t t' : Tally} {answer : Except CommitError TxHash} (raw : Bytes)
    (ha : t.note answer = .ok t') :
    Call.failed (raw, answer) = false ∧ t'.attempted = t.attempted + 1 ∧
      t'.violations = t.violations + if Call.refused (raw, answer) then 1 else 0 := by
  rcases answer with (_ | _ | _) | _
  · cases ha
    exact ⟨rfl, rfl, rfl⟩
  · exact nomatch ha
  · exact nomatch ha
  · cases ha
    exact ⟨rfl, rfl, rfl⟩

theorem Tally.note_eq_error {t : Tally} {answer : Except CommitError TxHash} {e : ResendError} (raw : Bytes)
    (ha : t.note answer = .error e) :
    ∃ c, answer = .error c ∧ e = .commit c ∧ Call.failed (raw, .error c) = true := by
  rcases answer with (_ | _ | _) | _
  · exact nomatch ha
  · cases ha
    exact ⟨_, rfl, rfl, rfl⟩
  · cases ha
    exact ⟨_, rfl, rfl, rfl⟩
  · exact nomatch ha

/-- The calls `calls` are what handing over `raws` one after the other, as long as none fails, comes to, and `r` is what
is told of them: counters that go on from `t`, or the failure. -/
inductive Handed (t : Tally) (raws : List Bytes) : List Call → Except ResendError Tally → Prop where
  | all {calls : List Call} (order : calls.map Prod.fst = raws) (ok : ∀ c ∈ calls, c.failed = false) :
    Handed t raws calls (.ok ⟨t.attempted + calls.length, t.violations + calls.countP Call.refused⟩)
  | cut {done : List Call} {raw : Bytes} {e : CommitError} {rest : List Bytes}
      (order : done.map Prod.fst ++ raw :: rest = raws) (ok : ∀ c ∈ done, c.failed = false)
      (failed : Call.failed (raw, .error e) = true) :
    Handed t raws (done ++ [(raw, .error e)]) (.error (.commit e))

namespace Handed

variable {t t' : Tally} {raws : List Bytes} {raw : Bytes} {calls : List Call} {answer : Except CommitError TxHash}
  {r : Except ResendError Tally} {e : ResendError}

theorem nil : Handed t [] [] (.ok t) := .all rfl nofun

theorem cons (ha : t.note answer = .ok t') (h : Handed t' raws calls r) :
    Handed t (raw :: raws) ((raw, answer) :: calls) r := by
  obtain ⟨hok, hattempted, hviolations⟩ := Tally.note_eq_ok raw ha
  cases h with
  | all order ok =>
    have hcount : Tally.mk (t'.attempted + calls.length) (t'.violations + calls.countP Call.refused) =
        ⟨t.attempted + (calls.length + 1), t.violations + List.countP Call.refused ((raw, answer) :: calls)⟩ := by
      rw [List.countP_cons]
      exact congrArg₂ Tally.mk (by omega) (by omega)
    rw [hcount]
    exact .all (by rw [List.map_cons, order]) (List.forall_mem_cons.2 ⟨hok, ok⟩)
  | cut order ok failed =>
    exact .cut (by rw [List.map_cons, List.cons_append, order]) (List.forall_mem_cons.2 ⟨hok, ok⟩) failed

theorem of_failed (ha : t.note answer = .error e) : Handed t (raw :: raws) [(raw, answer)] (.error e) := by
  obtain ⟨c, rfl, rfl, hfailed⟩ := Tally.note_eq_error raw ha
  have hnone : ∀ c ∈ ([] : List Call), c.failed = false := nofun
  exact .cut rfl hnone hfailed

/-- Where none failed, the counters have counted the calls, of which there was one for each payload. -/
theorem tally (h : Handed t raws calls (.ok t')) : calls.map Prod.fst = raws ∧
    t'.attempted = t.attempted + calls.length ∧ t'.violations = t.violations + calls.countP Call.refused := by
  cases h with
  | all order ok => exact ⟨order, rfl, rfl⟩

/-- Of calls none of which failed, those that were not refused were accepted. -/
theorem counts (h : Handed .zero raws calls (.ok t')) : Counts t'.committed t'.violations calls := by
  cases h with
  | all order ok =>
    have hsplit := List.length_eq_countP_add_countP Call.refused (l := calls)
    have haccepted : calls.countP Call.accepted = calls.countP fun c => ¬ c.refused = true :=
      List.countP_congr fun c hc => by simp [Call.accepted_eq_not_refused (ok c hc)]
    refine ⟨?_, Nat.zero_add _, ok⟩
    rw [haccepted, Tally.committed]
    show 0 + calls.length - (0 + calls.countP Call.refused) = _
    omega

end Handed

namespace Backend

variable {σ : Type} {b : Backend σ} {s : σ} {notes : Notes}

theorem eval_foldlM_noted (b : Backend σ) (vs : List Staging.Version) (t : Tally) (s : σ) (notes : Notes) :
    ∃ calls r s', (vs.foldlM b.noted.commitVersion t).eval (s, notes) =
        (r, s', { notes with commits := notes.commits ++ calls }) ∧
      (vs.foldlM b.commitVersion t).eval s = (r, s') ∧ Handed t (vs.map Staging.Version.raw) calls r := by
  induction vs generalizing t s notes with
  | nil => exact ⟨[], .ok t, s, by simp, rfl, .nil⟩
  | cons v vs ih =>
    have hnoted : (b.noted.commitVersion t v).eval (s, notes) = (t.note ((b.commit v.raw).eval s).1,
        ((b.commit v.raw).eval s).2,
        { notes with commits := notes.commits ++ [(v.raw, ((b.commit v.raw).eval s).1)] }) :=
      b.noted.eval_commitVersion t v (s, notes)
    have hplain := b.eval_commitVersion t v s
    simp only [List.foldlM_cons]
    cases ha : t.note ((b.commit v.raw).eval s).1 with
    | error e =>
      rw [ha] at hnoted hplain
      exact ⟨[(v.raw, _)], .error e, _, Op.eval_bind_error hnoted _, Op.eval_bind_error hplain _, .of_failed ha⟩
    | ok t' =>
      rw [ha] at hnoted hplain
      obtain ⟨calls, r, s', hrest, hrest', hh⟩ := ih t' ((b.commit v.raw).eval s).2
        { notes with commits := notes.commits ++ [(v.raw, ((b.commit v.raw).eval s).1)] }
      refine ⟨(v.raw, _) :: calls, r, s', ?_, ?_, hh.cons ha⟩
      · rw [Op.eval_bind_ok hnoted, hrest, List.append_assoc, List.singleton_append]
      · rw [Op.eval_bind_ok hplain, hrest']

theorem foldlM_commitRow (b : Backend σ) (rows : List Staging.Row) (t : Tally) :
    rows.foldlM b.commitRow t = (rows.flatMap fun row => row.versions.values).foldlM b.commitVersion t := by
  induction rows generalizing t with
  | nil => rfl
  | cons row rows ih =>
    rw [List.foldlM_cons, List.flatMap_cons, List.foldlM_append, commitRow]
    simp only [ih]

/-- A synchronisation, with notes and without, over an area that hands out these rows and is left alone by commits. It
is the same for every size of a page. -/
theorem eval_sync_noted {I : σ → Prop} {rows : List Staging.Row} {count : Nat}
    (hserve : Op.Serves b.stagedPage I rows) (hsize : ∀ s, I s → b.areaSize.eval s = (.ok count, s))
    (hkeep : ∀ raw, (b.commit raw).Keeps I) (hcount : rows.length ≤ count) (hs : I s) (notes : Notes) :
    ∃ calls r s', (∀ pageSize, (b.noted.sync pageSize).eval (s, notes) =
          (r, s', { notes with commits := notes.commits ++ calls }) ∧ (b.sync pageSize).eval s = (r, s')) ∧
      Handed .zero (rows.flatMap Staging.Row.raws) calls r := by
  obtain ⟨calls, r, s', hnoted, hplain, hh⟩ :=
    b.eval_foldlM_noted (rows.flatMap fun row => row.versions.values) .zero s notes
  rw [List.map_flatMap] at hh
  refine ⟨calls, r, s', fun pageSize => ⟨?_, ?_⟩, hh⟩
  · have hserve' : Op.Serves b.noted.stagedPage (fun p => I p.1) rows := by
      intro p hp offset max
      show (((b.stagedPage offset max).eval p.1).1, ((b.stagedPage offset max).eval p.1).2, p.2) = _
      rw [hserve p.1 hp]
    have hsize' : ∀ p : σ × Notes, I p.1 → b.noted.areaSize.eval p = (.ok count, p) := by
      intro p hp
      show ((b.areaSize.eval p.1).1, (b.areaSize.eval p.1).2, p.2) = _
      rw [hsize p.1 hp]
    rw [eval_sync_eq_foldlM hserve' hsize' (fun raw p hp => hkeep raw p.1 hp) hcount pageSize hs, foldlM_commitRow,
      hnoted]
  · rw [eval_sync_eq_foldlM hserve hsize hkeep hcount pageSize hs, foldlM_commitRow, hplain]

/-! ### Pushes -/

theorem eval_stagePayload_noted (b : Backend σ) (raw : Bytes) (s : σ) (notes : Notes) :
    (∃ s', (b.noted.stagePayload raw).eval (s, notes) =
        (.ok (), s', { notes with written := notes.written ++ [raw] }) ∧ (b.stagePayload raw).eval s = (.ok (), s')) ∨
      ∃ e s', (b.noted.stagePayload raw).eval (s, notes) = (.error e, s', notes) ∧
        (b.stagePayload raw).eval s = (.error e, s') := by
  unfold stagePayload
  cases hp : Payload.decode raw with
  | error e => exact .inr ⟨.payload e, s, rfl, rfl⟩
  | ok p =>
    have hdecode : ∀ {τ : Type} (u : τ), (Op.ofExcept ((Except.ok p : Except PayloadError Payload).mapError
        ResendError.payload) : Op ResendError τ Payload).eval u = (.ok p, u) := fun _ => rfl
    rw [Op.eval_bind_ok (hdecode _), Op.eval_bind_ok (hdecode _), Op.eval_bind, Op.eval_bind, Op.eval_mapError,
      Op.eval_mapError]
    unfold noted
    rw [Op.eval_noting]
    rcases (b.upsert p.hash (.ofPayload p) (.ofPayload raw p)).eval s with ⟨e | row, s'⟩
    · exact .inr ⟨.db e, s', rfl, rfl⟩
    · exact .inl ⟨s', rfl, rfl⟩

/-- A push writes its payloads one after the other, all of them or those before the one that it fails at. -/
theorem eval_push_noted (b : Backend σ) (payloads : List Bytes) (s : σ) (notes : Notes) :
    ∃ written r s', (b.noted.push payloads).eval (s, notes) =
        (r, s', { notes with written := notes.written ++ written }) ∧
      (b.push payloads).eval s = (r, s') ∧ written <+: payloads ∧ (r = .ok () → written = payloads) := by
  induction payloads generalizing s notes with
  | nil => exact ⟨[], .ok (), s, by rw [List.append_nil]; rfl, rfl, List.prefix_refl _, fun _ => rfl⟩
  | cons raw payloads ih =>
    have hcons : ∀ {τ : Type} (x : Backend τ),
        x.push (raw :: payloads) = x.stagePayload raw >>= fun _ => x.push payloads := fun _ => rfl
    rw [hcons, hcons]
    rcases b.eval_stagePayload_noted raw s notes with ⟨s', hnoted, hplain⟩ | ⟨e, s', hnoted, hplain⟩
    · obtain ⟨written, r, s'', hrest, hrest', hprefix, hall⟩ := ih s' { notes with written := notes.written ++ [raw] }
      refine ⟨raw :: written, r, s'', ?_, ?_, List.cons_prefix_cons.2 ⟨rfl, hprefix⟩, fun hr => by rw [hall hr]⟩
      · rw [Op.eval_bind_ok hnoted, hrest, List.append_assoc, List.singleton_append]
      · rw [Op.eval_bind_ok hplain, hrest']
    · exact ⟨[], .error e, s', by rw [Op.eval_bind_error hnoted, List.append_nil], Op.eval_bind_error hplain _,
        List.nil_prefix, nofun⟩

end Backend

end TxRecovery
