import TxRecovery.Proofs.Resend.Entitlement

/-!
# What a resend publishes

`Packed limit waiting views batches rest`: queued behind `waiting`, the `views` went out in `batches` of
`limit` each and `rest`, fewer than that, still waits. Examining a row keeps it and so does examining one
page after the other, whatever the pages are (`Backend.Over.examineFrom`); flushing sends the rest. So
what is published, put together, does not depend on the size of a batch.
-/

namespace TxRecovery

structure Packed {α : Type} (limit : Nat) (waiting views : List α) (batches : List (List α)) (rest : List α) :
    Prop where
  flatten : batches.flatten ++ rest = waiting ++ views
  full : ∀ b ∈ batches, b.length = limit
  lt : rest.length < limit

namespace Packed

variable {α : Type} {limit : Nat} {waiting views views' rest rest' : List α}
  {batches batches' : List (List α)}

theorem nil (h : waiting.length < limit) : Packed limit waiting [] [] waiting :=
  ⟨(List.append_nil waiting).symm, nofun, h⟩

theorem append (h : Packed limit waiting views batches rest) (h' : Packed limit rest views' batches' rest') :
    Packed limit waiting (views ++ views') (batches ++ batches') rest' := by
  refine ⟨?_, fun b hb => (List.mem_append.1 hb).elim (h.full b) (h'.full b), h'.lt⟩
  rw [List.flatten_append, List.append_assoc, h'.flatten, ← List.append_assoc, h.flatten, List.append_assoc]

theorem send {view : α} (h : waiting.length < limit) (hfull : limit ≤ waiting.length + 1) :
    Packed limit waiting [view] [waiting ++ [view]] [] := by
  refine ⟨by simp, fun b hb => ?_, Nat.zero_lt_of_lt h⟩
  rw [List.mem_singleton.1 hb, List.length_append, List.length_singleton]
  omega

theorem wait {view : α} (hfull : ¬ limit ≤ waiting.length + 1) :
    Packed limit waiting [view] [] (waiting ++ [view]) := by
  refine ⟨rfl, nofun, ?_⟩
  rw [List.length_append, List.length_singleton]
  omega

end Packed

/-- Batches that put together give `views`: all of `limit` but the last, which has at least one. -/
structure Batched {α : Type} (limit : Nat) (views : List α) (batches : List (List α)) : Prop where
  flatten : batches.flatten = views
  full : ∀ b ∈ batches.dropLast, b.length = limit
  last : ∀ b ∈ batches.getLast?, 1 ≤ b.length ∧ b.length ≤ limit

/-- What waits at the end goes out as the last batch, unless there is nothing. -/
theorem Packed.batched {α : Type} {limit : Nat} {views rest : List α} {batches : List (List α)}
    (h : Packed limit [] views batches rest) :
    Batched limit views (if rest.isEmpty then batches else batches ++ [rest]) := by
  have hflat := h.flatten
  have hlt := h.lt
  cases rest with
  | nil =>
    rw [List.append_nil] at hflat
    refine ⟨hflat, fun b hb => h.full b (List.dropLast_subset _ hb), fun b hb => ?_⟩
    have := h.full b (List.mem_of_getLast? hb)
    rw [List.length_nil] at hlt
    omega
  | cons v rest =>
    show Batched limit views (batches ++ [v :: rest])
    refine ⟨?_, fun b hb => ?_, fun b hb => ?_⟩
    · rw [List.flatten_append, List.flatten_singleton, hflat, List.nil_append]
    · rw [List.dropLast_concat] at hb
      exact h.full b hb
    · rw [List.getLast?_concat] at hb
      cases hb
      rw [List.length_cons] at hlt ⊢
      omega

/-- One view goes out in one batch. -/
theorem Batched.eq_singleton {α : Type} {limit : Nat} {view : α} {batches : List (List α)} (hlimit : 1 ≤ limit)
    (h : Batched limit [view] batches) : batches = [[view]] := by
  rcases List.eq_nil_or_concat' batches with rfl | ⟨init, b, rfl⟩
  · exact nomatch h.flatten
  · have hlast := (h.last b List.getLast?_concat).1
    have hlength := congrArg List.length h.flatten
    cases init with
    | nil =>
      have hflatten := h.flatten
      rw [List.nil_append, List.flatten_singleton] at hflatten
      rw [hflatten, List.nil_append]
    | cons c init =>
      have hfull := h.full c (by rw [List.dropLast_concat]; exact List.mem_cons_self)
      simp only [List.flatten_append, List.flatten_cons, List.length_append, List.length_singleton] at hlength
      omega

/-- What a state tells of the past: what it noted of the rows handed out, and what was published. -/
structure Journal (σ α β : Type) where
  read : σ → List β
  note : StoredTx → List β
  sent : σ → List α
  entry : List Payload → PublicKey → α

namespace Backend

variable {σ α β : Type} {b : Backend σ} {x : Archive} {I : σ → Prop} {j : Journal σ α β} {s : σ}
  {target : PublicKey} {limit count : Nat}

/-- In every state with `I` the backend works over the archive and keeps the journal. -/
structure Over (b : Backend σ) (x : Archive) (I : σ → Prop) (j : Journal σ α β) : Prop where
  status : ∀ s, I s → b.enclaveStatus s = (.started, s)
  ownedKeys : ∀ s, I s → b.ownedKeys s = (x.owned, s)
  openPayload : b.OpensFrom x I
  ledgerSize : ∀ s, I s → ∃ k, b.ledgerSize.eval s = (.ok k, s)
  ledgerPage : ∀ s, I s → ∀ offset max, ∃ s',
    (b.ledgerPage offset max).eval s = (.ok ((x.rows.drop offset).take max), s') ∧ I s' ∧
      j.read s' = j.read s ++ ((x.rows.drop offset).take max).flatMap j.note ∧ j.sent s' = j.sent s
  publish : ∀ s, I s → ∀ views k, I (b.publish views k s).2 ∧ j.read (b.publish views k s).2 = j.read s ∧
    j.sent (b.publish views k s).2 = j.sent s ++ [j.entry views k]

/-- The answer of a run over rows, unless one of them failed. -/
def answer {α : Type} (failure : Option ResendError) (a : α) : Except ResendError α :=
  match failure with
  | none => .ok a
  | some e => .error e

/-- From `s` to `s'` the rows were examined: their views were packed into batches, which were published. -/
structure Examined (x : Archive) (I : σ → Prop) (j : Journal σ α β) (target : PublicKey) (limit : Nat)
    (waiting : List Payload) (rows : List StoredTx) (s : σ) (batches : List (List Payload))
    (rest : List Payload) (s' : σ) : Prop where
  keeps : I s'
  sent : j.sent s' = j.sent s ++ batches.map (j.entry · target)
  packed : Packed limit waiting (x.scan target rows).1 batches rest

theorem Over.examine_row (hb : b.Over x I j) (target : PublicKey) {waiting : List Payload} (hs : I s)
    (hw : waiting.length < limit) (row : StoredTx) :
    ∃ batches rest s', (b.examine x.owned limit target waiting row).eval s =
        (answer (x.scan target [row]).2 rest, s') ∧
      Examined x I j target limit waiting [row] s batches rest s' ∧ j.read s' = j.read s := by
  rw [eval_examine hb.openPayload hs]
  have hscan := x.scan_singleton target row
  have hnone : j.sent s = j.sent s ++ ([] : List (List Payload)).map (j.entry · target) := by simp
  cases hv : x.verdict target row with
  | error e =>
    rw [hv] at hscan
    exact ⟨[], waiting, s, by rw [hscan]; rfl, ⟨hs, hnone, by rw [hscan]; exact .nil hw⟩, rfl⟩
  | ok view? =>
    rw [hv] at hscan
    cases view? with
    | none => exact ⟨[], waiting, s, by rw [hscan]; rfl, ⟨hs, hnone, by rw [hscan]; exact .nil hw⟩, rfl⟩
    | some view =>
      simp only [eval_enqueue, hscan]
      obtain ⟨hkeep, hread, hsent⟩ := hb.publish s hs (waiting ++ [view]) target
      split
      · rename_i hfull
        exact ⟨[waiting ++ [view]], [], _, rfl, ⟨hkeep, hsent, by rw [hscan]; exact .send hw hfull⟩, hread⟩
      · rename_i hfull
        exact ⟨[], waiting ++ [view], s, rfl, ⟨hs, hnone, by rw [hscan]; exact .wait hfull⟩, rfl⟩

theorem Examined.append {waiting rest rest' : List Payload} {rows rows' : List StoredTx}
    {batches batches' : List (List Payload)} {s' s'' : σ}
    (h : Examined x I j target limit waiting rows s batches rest s') (hf : (x.scan target rows).2 = none)
    (h' : Examined x I j target limit rest rows' s' batches' rest' s'') :
    Examined x I j target limit waiting (rows ++ rows') s (batches ++ batches') rest' s'' ∧
      (x.scan target (rows ++ rows')).2 = (x.scan target rows').2 := by
  have hscan := x.scan_append target rows rows'
  have hpair : x.scan target rows = ((x.scan target rows).1, none) := Prod.ext rfl hf
  rw [hpair] at hscan
  rw [hscan]
  refine ⟨⟨h'.keeps, ?_, ?_⟩, rfl⟩
  · rw [h'.sent, h.sent, List.map_append, List.append_assoc]
  · rw [hscan]
    exact h.packed.append h'.packed

/-- A failure ends the run: the rows behind it do not matter. -/
theorem Examined.stop {waiting rest : List Payload} {rows : List StoredTx} {batches : List (List Payload)}
    {s' : σ} {e : ResendError} (h : Examined x I j target limit waiting rows s batches rest s')
    (hf : (x.scan target rows).2 = some e) (rows' : List StoredTx) :
    Examined x I j target limit waiting (rows ++ rows') s batches rest s' ∧
      (x.scan target (rows ++ rows')).2 = some e := by
  have hscan := x.scan_append target rows rows'
  have hpair : x.scan target rows = ((x.scan target rows).1, some e) := Prod.ext rfl hf
  rw [hpair] at hscan
  rw [hscan]
  exact ⟨⟨h.keeps, h.sent, by rw [hscan]; exact h.packed⟩, rfl⟩

theorem Over.examine_rows (hb : b.Over x I j) (target : PublicKey) {waiting : List Payload} (hs : I s)
    (hw : waiting.length < limit) (rows : List StoredTx) :
    ∃ batches rest s', (rows.foldlM (b.examine x.owned limit target) waiting).eval s =
        (answer (x.scan target rows).2 rest, s') ∧
      Examined x I j target limit waiting rows s batches rest s' ∧ j.read s' = j.read s := by
  induction rows generalizing waiting s with
  | nil => exact ⟨[], waiting, s, rfl, ⟨hs, by simp, .nil hw⟩, rfl⟩
  | cons row rows ih =>
    obtain ⟨batches, rest, s', heval, hex, hread⟩ := hb.examine_row target hs hw row
    rw [List.foldlM_cons]
    cases hf : (x.scan target [row]).2 with
    | some e =>
      rw [hf] at heval
      obtain ⟨hex', hf'⟩ := hex.stop hf rows
      rw [List.singleton_append] at hex' hf'
      exact ⟨batches, rest, s', by rw [Op.eval_bind_error heval, hf']; rfl, hex', hread⟩
    | none =>
      rw [hf] at heval
      obtain ⟨batches', rest', s'', heval', hex', hread'⟩ := ih hex.keeps hex.packed.lt
      obtain ⟨hall, hf'⟩ := hex.append hf hex'
      rw [List.singleton_append] at hall hf'
      exact ⟨_, rest', s'', by rw [Op.eval_bind_ok heval, heval', hf'], hall, hread'.trans hread⟩

theorem Examined.of_sent_eq {waiting rest : List Payload} {rows : List StoredTx}
    {batches : List (List Payload)} {s₁ s' : σ} (hs : j.sent s₁ = j.sent s)
    (h : Examined x I j target limit waiting rows s₁ batches rest s') :
    Examined x I j target limit waiting rows s batches rest s' :=
  ⟨h.keeps, hs ▸ h.sent, h.packed⟩

/-- Page by page, every row up to the captured count is examined once, whatever the size of a page. -/
theorem Over.examineFrom (hb : b.Over x I j) (target : PublicKey) (count : Nat) {waiting : List Payload}
    {offset : Nat} {rows : List StoredTx} (hs : I s) (hw : waiting.length < limit)
    (ho : offset ≤ (x.rows.take count).length)
    (hrows : (x.rows.take count).drop offset = rows) :
    ∃ batches rest s', (b.examineFrom x.owned limit target count offset waiting).eval s =
        (answer (x.scan target rows).2 ((x.rows.take count).length, rest), s') ∧
      Examined x I j target limit waiting rows s batches rest s' ∧
      ((x.scan target rows).2 = none → j.read s' = j.read s ++ rows.flatMap j.note) := by
  induction hk : count - offset using Nat.strongRecOn generalizing offset waiting rows s with
  | _ k ih =>
    subst hk
    have hlen : (x.rows.take count).length ≤ count := List.length_take_le _ _
    unfold Backend.examineFrom
    split
    · rename_i hlt
      -- the page is cut from the rows up to the captured count
      have hslice : (x.rows.drop offset).take (min limit (count - offset)) = rows.take limit := by
        rw [← hrows, List.drop_take, List.take_take]
      obtain ⟨s₁, hpage, hs₁, hread₁, hsent₁⟩ := hb.ledgerPage s hs offset (min limit (count - offset))
      rw [hslice] at hpage hread₁
      have hpage' : ((b.ledgerPage offset (min limit (count - offset))).mapError ResendError.db).eval s =
          (.ok (rows.take limit), s₁) := by
        rw [Op.eval_mapError, hpage]
        rfl
      rw [Op.eval_bind_ok hpage']
      rcases Op.page_cases (x.rows.take count) offset (Nat.zero_lt_of_lt hw) with
        ⟨hnil, hdrop⟩ | ⟨row, page, hcons, hle, hdrop⟩
      · have hend := Nat.le_antisymm ho (List.drop_eq_nil_iff.1 hdrop)
        cases hrows.symm.trans hdrop
        rw [List.take_nil] at hread₁ ⊢
        exact ⟨[], waiting, s₁, by rw [hend]; rfl, ⟨hs₁, by rw [hsent₁]; simp, .nil hw⟩, fun _ => hread₁⟩
      · rw [hrows] at hcons
        rw [hcons] at hread₁ ⊢
        obtain ⟨batches, rest, s₂, heval, hex, hread₂⟩ := hb.examine_rows target hs₁ hw (row :: page)
        rw [← hrows, hdrop]
        cases hf : (x.scan target (row :: page)).2 with
        | some e =>
          rw [hf] at heval
          obtain ⟨hall, hf'⟩ := hex.stop hf ((x.rows.take count).drop (offset + (page.length + 1)))
          refine ⟨batches, rest, s₂, ?_, hall.of_sent_eq hsent₁, fun h => nomatch hf'.symm.trans h⟩
          rw [hf']
          exact Op.eval_bind_error heval _
        | none =>
          rw [hf] at heval
          obtain ⟨batches', rest', s₃, heval', hex', hread₃⟩ :=
            ih _ (by omega) hex.keeps hex.packed.lt hle rfl rfl
          obtain ⟨hall, hf'⟩ := hex.append hf hex'
          refine ⟨_, rest', s₃, ?_, hall.of_sent_eq hsent₁, fun h => ?_⟩
          · rw [hf', ← heval']
            exact Op.eval_bind_ok heval _
          · rw [hread₃ (hf'.symm.trans h), hread₂, hread₁, List.flatMap_append, List.append_assoc]
    · have hnil : rows = [] := hrows ▸ List.drop_eq_nil_of_le (by omega)
      have hend : offset = (x.rows.take count).length := by omega
      subst hnil
      exact ⟨[], waiting, s, by rw [hend]; rfl, ⟨hs, by simp, .nil hw⟩, fun _ => by simp⟩

theorem Over.flush (hb : b.Over x I j) (target : PublicKey) (hs : I s) (rest : List Payload) :
    ∃ s', (b.flush target rest).eval s = (.ok (), s') ∧ I s' ∧ j.read s' = j.read s ∧
      j.sent s' = j.sent s ++ if rest.isEmpty then [] else [j.entry rest target] := by
  unfold Backend.flush
  split
  · exact ⟨s, rfl, hs, rfl, (List.append_nil _).symm⟩
  · obtain ⟨hkeep, hread, hsent⟩ := hb.publish s hs rest target
    exact ⟨_, Op.eval_lift _ _, hkeep, hread, hsent⟩

theorem Over.resend (hb : b.Over x I j) (hs : I s) (hcount : b.ledgerSize.eval s = (.ok count, s))
    {request : ResendRequest} (ht : PublicKey.ofBase64 request.target = .ok target)
    (hn : 1 ≤ request.batchSize) :
    ∃ batches rest s', (b.resend request).eval s =
        (answer (x.scan target (x.rows.take count)).2 (x.rows.take count).length, s') ∧
      Packed request.batchSize [] (x.scan target (x.rows.take count)).1 batches rest ∧
      ((x.scan target (x.rows.take count)).2 = none →
        j.read s' = j.read s ++ (x.rows.take count).flatMap j.note ∧
        j.sent s' = j.sent s ++
          (if rest.isEmpty then batches else batches ++ [rest]).map (j.entry · target)) ∧
      (∀ e, (x.scan target (x.rows.take count)).2 = some e →
        j.sent s' = j.sent s ++ batches.map (j.entry · target)) := by
  obtain ⟨batches, rest, s₁, heval, hex, hread⟩ := hb.examineFrom target count hs
    (show ([] : List Payload).length < request.batchSize from hn) (Nat.zero_le _) rfl
  rw [List.drop_zero] at heval hex hread
  have hcount' : (b.ledgerSize.mapError ResendError.db).eval s = (.ok count, s) := by
    rw [Op.eval_mapError, hcount]
    rfl
  have hstatus : (liftM b.enclaveStatus : Op ResendError σ _).eval s = (.ok .started, s) := by
    rw [Op.eval_lift, hb.status s hs]
  have howned : (liftM b.ownedKeys : Op ResendError σ _).eval s = (.ok x.owned, s) := by
    rw [Op.eval_lift, hb.ownedKeys s hs]
  have htarget : (Op.ofExcept ((PublicKey.ofBase64 request.target).mapError ResendError.invalidPublicKey) :
      Op ResendError σ _).eval s = (.ok target, s) := by
    rw [ht]
    rfl
  unfold Backend.resend
  rw [Op.eval_bind_ok hstatus, if_neg (by simp), if_neg (by omega)]
  dsimp only
  rw [Op.eval_bind_ok htarget, Op.eval_bind_ok howned, Op.eval_bind_ok hcount']
  cases hf : (x.scan target (x.rows.take count)).2 with
  | some e =>
    rw [hf] at heval
    exact ⟨batches, rest, s₁, Op.eval_bind_error heval _, hex.packed, nofun, fun _ _ => hex.sent⟩
  | none =>
    rw [hf] at heval
    rw [Op.eval_bind_ok heval]
    obtain ⟨s₂, hflush, hs₂, hread₂, hsent₂⟩ := hb.flush target hex.keeps rest
    obtain ⟨k, hk⟩ := hb.ledgerSize s₂ hs₂
    have hk' : (b.ledgerSize.mapError ResendError.db).eval s₂ = (.ok k, s₂) := by
      rw [Op.eval_mapError, hk]
      rfl
    refine ⟨batches, rest, s₂, ?_, hex.packed, fun _ => ⟨hread₂.trans (hread hf), ?_⟩, nofun⟩
    · dsimp only
      rw [Op.eval_bind_ok hflush, Op.eval_bind_ok hk']
      rfl
    · rw [hsent₂, hex.sent]
      split
      · rw [List.append_nil]
      · rw [List.map_append, List.append_assoc]
        rfl

end Backend

end TxRecovery
