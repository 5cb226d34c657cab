import TxRecovery.Proofs.Resend.Batches

/-!
# A resend publishes the views that the target is entitled to

Over any archive, with any count of rows captured at the start and any size of a batch, a resend examines
the rows up to the count once each and publishes their views in order, in full batches but for the last;
if a row fails, the first one that does decides the error, and only full batches of the views before it
were published (`resend_publishes`).
-/

namespace TxRecovery

/-- A backend over an archive that remembers the rows it hands out and the batches it publishes. It counts
`count` rows, however many there are, and stages and commits nothing. -/
def Archive.backend (x : Archive) (count : Nat) : Backend (List StoredTx × List (List Payload × PublicKey)) where
  enclaveStatus s := (.started, s)
  ownedKeys s := (x.owned, s)
  openPayload p k := fun s => (x.opens p k, s)
  ledgerSize := pure count
  ledgerPage offset max := ExceptT.mk fun s =>
    let page := (x.rows.drop offset).take max
    (.ok page, (s.1 ++ page, s.2))
  publish views k := fun s => ((), (s.1, s.2 ++ [(views, k)]))
  upsert _ _ _ := throw (.notFound "")
  areaSize := pure 0
  countStaged := pure 0
  assignStages _ := pure ()
  stagedPage _ _ := pure []
  clearArea _ := pure 0
  commit _ := throw (.db (.notFound ""))

/-- The rows handed out and the batches published, as they are. -/
def Journal.full {σ : Type} (read : σ → List StoredTx) (sent : σ → List (List Payload × PublicKey)) :
    Journal σ (List Payload × PublicKey) StoredTx :=
  ⟨read, fun row => [row], sent, Prod.mk⟩

theorem Archive.backend_over (x : Archive) (count : Nat) :
    (x.backend count).Over x (fun _ => True) (.full Prod.fst Prod.snd) where
  status _ _ := rfl
  ownedKeys _ _ := rfl
  openPayload _ _ _ _ := rfl
  ledgerSize _ _ := ⟨count, rfl⟩
  ledgerPage s _ offset max := by
    refine ⟨_, rfl, trivial, ?_, rfl⟩
    show s.1 ++ _ = s.1 ++ List.flatMap (fun row => [row]) _
    rw [List.flatMap_singleton']
  publish _ _ _ _ := ⟨trivial, rfl, rfl⟩

namespace Backend

variable {σ : Type} {b : Backend σ} {x : Archive} {I : σ → Prop} {s : σ} {target : PublicKey} {count : Nat}
  {read : σ → List StoredTx} {sent : σ → List (List Payload × PublicKey)}

/-- Put together, the batches are the views of the examined rows, whatever the size of a batch. -/
theorem resend_publishes (hb : b.Over x I (.full read sent)) (hs : I s)
    (hcount : b.ledgerSize.eval s = (.ok count, s)) {request : ResendRequest}
    (ht : PublicKey.ofBase64 request.target = .ok target) (hn : 1 ≤ request.batchSize) :
    ∃ r s' batches, (b.resend request).eval s = (r, s') ∧ sent s' = sent s ++ batches.map (·, target) ∧
      (∀ k, r = .ok k → k = min count x.rows.length ∧ read s' = read s ++ x.rows.take count ∧
        (∀ row ∈ x.rows.take count, ∃ view, x.verdict target row = .ok view) ∧
        Batched request.batchSize (x.views target (x.rows.take count)) batches) ∧
      (∀ e, r = .error e → ∃ done row later rest, x.rows.take count = done ++ row :: later ∧
        x.verdict target row = .error e ∧ (∀ row ∈ done, ∃ view, x.verdict target row = .ok view) ∧
        Packed request.batchSize [] (x.views target done) batches rest) := by
  obtain ⟨batches, rest, s', heval, hpacked, hok, herror⟩ := hb.resend hs hcount ht hn
  cases hf : (x.scan target (x.rows.take count)).2 with
  | none =>
    obtain ⟨hread, hsent⟩ := hok hf
    obtain ⟨hall, hviews⟩ := x.scan_eq_views target hf
    rw [hf] at heval
    refine ⟨_, s', _, heval, hsent, fun k hk => ⟨?_, ?_, hall, hviews ▸ hpacked.batched⟩, nofun⟩
    · cases hk
      exact List.length_take
    · rw [← List.flatMap_singleton' (x.rows.take count)]
      exact hread
  | some e =>
    obtain ⟨done, row, later, hrows, hv, hall, hviews⟩ := x.exists_of_scan target hf
    rw [hf] at heval
    refine ⟨_, s', batches, heval, herror e hf, nofun, fun e' he => ?_⟩
    cases he
    exact ⟨done, row, later, rest, hrows, hv, hall, hviews ▸ hpacked⟩

/-- The party whose key repeats one byte. -/
def party (b : UInt8) : PublicKey := ⟨.replicate 32 b⟩

/-- Two payloads of the owned party 1 to the parties 2 and 3, and an enclave that opens nothing. -/
def sampleArchive : Archive :=
  let own (c : UInt8) : Payload :=
    ⟨party 1, [c], default, [[1], [2]], default, [party 2, party 3], .partyProtection, .empty, []⟩
  ⟨[own 1, own 2].map fun p => ⟨p.hash, p.encode⟩, .ofList [party 1], fun _ _ => .error .keyNotFound⟩

theorem sampleArchive_publishes :
    ∃ s' batches, ((sampleArchive.backend 5).resend ⟨(party 3).toBase64, 1⟩).eval ([], []) = (.ok 2, s') ∧
      s' = (sampleArchive.rows, batches.map (·, party 3)) ∧ (batches : List (List Payload)).flatten.length = 2 := by
  have ht : PublicKey.ofBase64 (ResendRequest.mk (party 3).toBase64 1).target = .ok (party 3) := by
    decide +kernel
  obtain ⟨r, s', batches, heval, hsent, hok, herror⟩ :=
    resend_publishes (sampleArchive.backend_over 5) (s := ([], [])) trivial rfl ht (Nat.le_refl 1)
  have hall : ∀ row ∈ sampleArchive.rows.take 5, (sampleArchive.verdict (party 3) row).toOption.isSome := by
    decide +kernel
  cases r with
  | error e =>
    obtain ⟨done, row, later, -, hrows, hv, -⟩ := herror e rfl
    have := hall row (hrows ▸ by simp)
    rw [hv] at this
    exact nomatch this
  | ok k =>
    obtain ⟨rfl, hread, -, hbatched⟩ := hok k rfl
    refine ⟨s', batches, heval, Prod.ext hread hsent, ?_⟩
    rw [hbatched.flatten]
    decide +kernel

end Backend

end TxRecovery
