import TxRecovery.Proofs.Resend.Published

/-!
# What a resend discloses

`Payload.GivenAs p owned target v`: the view `v` is what the owner of the keys `owned` gives the target of `p`. Its own
payload it narrows to the target, if that is standard private. Any other it gives as it has it, with all that it
lists, so that such a view shows the target no box but its own only if the payload had no other
(`onlyFor_withRecipient`).

A resend publishes no view but these (`resend_discloses`), whatever the enclave answers and however it comes to do so:
`Backend.Reports` asks only that pages are cut from `rows` and that what was published can be told from the state.
-/

namespace TxRecovery

namespace Payload

variable {p v : Payload} {owned : SortedSet PublicKey} {target k : PublicKey}

/-- Of the parties to `p`, the view shows the target alone, with its own box. -/
def OnlyFor (p : Payload) (target : PublicKey) (v : Payload) : Prop :=
  v.recipients = [target] ∧ ∃ box, p.boxOf? target = some box ∧ v.boxes = [box]

structure GivenAs (p : Payload) (owned : SortedSet PublicKey) (target : PublicKey) (v : Payload) : Prop where
  party : p.sender = target ∨ target ∈ p.recipients
  own : p.sender ∈ owned → if p.mode.isStandard then p.forRecipient target = .ok v else v = p
  relayed : p.sender ∉ owned → ∃ k ∈ owned, v = p.withRecipient k

theorem eq_of_forRecipient (h : p.forRecipient target = .ok v) :
    v = { p with recipients := v.recipients, boxes := v.boxes } := by
  unfold forRecipient at h
  split at h
  · cases h
    rfl
  · cases h

theorem eq_withRecipient (p : Payload) (k : PublicKey) :
    p.withRecipient k =
      { p with recipients := (p.withRecipient k).recipients, boxes := (p.withRecipient k).boxes } := by
  unfold withRecipient
  split <;> rfl

/-- The view differs from the payload in whom it lists alone. -/
theorem GivenAs.eq (h : p.GivenAs owned target v) : v = { p with recipients := v.recipients, boxes := v.boxes } := by
  by_cases howned : p.sender ∈ owned
  · have hown := h.own howned
    split at hown
    · exact eq_of_forRecipient hown
    · rw [hown]
  · obtain ⟨k, -, rfl⟩ := h.relayed howned
    exact p.eq_withRecipient k

theorem onlyFor_of_forRecipient (h : p.forRecipient target = .ok v) : p.OnlyFor target v := by
  unfold forRecipient at h
  split at h
  · rename_i box hbox
    cases h
    exact ⟨rfl, box, hbox, rfl⟩
  · exact nomatch h

theorem onlyFor_withRecipient (ht : target ∈ p.recipients) :
    p.OnlyFor target (p.withRecipient k) ↔ p.recipients = [target] ∧ p.boxes.length = 1 ∧ k = target := by
  by_cases hk : k ∈ p.recipients
  · rw [withRecipient_of_mem hk]
    constructor
    · rintro ⟨hr, box, -, hb⟩
      rw [hr, List.mem_singleton] at hk
      exact ⟨hr, by rw [hb, List.length_singleton], hk⟩
    · rintro ⟨hr, hb, -⟩
      obtain ⟨box, hb⟩ := List.length_eq_one_iff.1 hb
      exact ⟨hr, box, by simp [boxOf?, hr, hb], hb⟩
  · -- the key is added behind the target's
    rw [withRecipient_of_not_mem hk]
    constructor
    · rintro ⟨hr, -⟩
      have hlen := congrArg List.length hr
      have hpos := List.length_pos_of_mem ht
      simp only [List.length_append, List.length_singleton] at hlen
      omega
    · rintro ⟨hr, -, rfl⟩
      exact absurd ht hk

end Payload

/-- A role that the owner of these keys may have. -/
def Role.IsFor (owned : SortedSet PublicKey) (target : PublicKey) (p : Payload) : Role → Prop
  | .sender => p.sender ∈ owned
  | .relay k => p.sender ∉ owned ∧ k ∈ owned ∧ (p.sender = target ∨ target ∈ p.recipients)
  | .unrelated => True

theorem Role.IsFor.givenAs {role : Role} {owned : SortedSet PublicKey} {target : PublicKey} {p v : Payload}
    (hr : role.IsFor owned target p) (hv : role.view? target p = .ok (some v)) : p.GivenAs owned target v := by
  cases role with
  | sender =>
    simp only [Role.view?] at hv
    split at hv
    · cases hv
    · rename_i hlisted
      have ht : target ∈ p.recipients := Payload.hasRecipient_iff.1 (by simpa using hlisted)
      refine ⟨.inr ht, fun _ => ?_, fun hnot => absurd hr hnot⟩
      split at hv
      · rename_i hm
        rw [if_pos hm]
        cases hf : p.forRecipient target with
        | error e =>
          rw [hf] at hv
          cases hv
        | ok q =>
          rw [hf] at hv
          cases hv
          rfl
      · rename_i hm
        rw [if_neg hm]
        cases hv
        rfl
  | relay k =>
    cases hv
    exact ⟨hr.2.2, fun howned => absurd howned hr.1, fun _ => ⟨k, hr.2.1, rfl⟩⟩
  | unrelated => cases hv

namespace Backend

variable {σ α β : Type} {b : Backend σ} {rows : List StoredTx} {owned : SortedSet PublicKey} {I : σ → Prop}
  {j : Journal σ α β} {target : PublicKey} {before : List α} {s s' : σ} {p : Payload} {limit : Nat}
  {waiting : List Payload}

/-- Nothing was published on the way from `s` to `s'`. -/
def Quiet (I : σ → Prop) (j : Journal σ α β) (s s' : σ) : Prop := I s' ∧ j.sent s' = j.sent s

/-- In every state with `I` the pages are cut from `rows`, the keys are those `owned`, and the journal notes what is
published and nothing else. -/
structure Reports (b : Backend σ) (rows : List StoredTx) (owned : SortedSet PublicKey) (I : σ → Prop)
    (j : Journal σ α β) : Prop where
  status : ∀ s, I s → Quiet I j s (b.enclaveStatus s).2
  ownedKeys : ∀ s, I s → Quiet I j s (b.ownedKeys s).2 ∧ (b.ownedKeys s).1 = owned
  openPayload : ∀ s, I s → ∀ p k, Quiet I j s (b.openPayload p k s).2
  ledgerSize : ∀ s, I s → Quiet I j s (b.ledgerSize.eval s).2
  ledgerPage : ∀ s, I s → ∀ offset max, Quiet I j s ((b.ledgerPage offset max).eval s).2 ∧
    ∀ page, ((b.ledgerPage offset max).eval s).1 = .ok page → ∀ row ∈ page, row ∈ rows
  publish : ∀ s, I s → ∀ views k, I (b.publish views k s).2 ∧
    j.sent (b.publish views k s).2 = j.sent s ++ [j.entry views k]

theorem Over.reports {x : Archive} (hb : b.Over x I j) : b.Reports x.rows x.owned I j where
  status s hs := by
    rw [hb.status s hs]
    exact ⟨hs, rfl⟩
  ownedKeys s hs := by
    rw [hb.ownedKeys s hs]
    exact ⟨⟨hs, rfl⟩, rfl⟩
  openPayload s hs p k := by
    rw [hb.openPayload s hs]
    exact ⟨hs, rfl⟩
  ledgerSize s hs := by
    obtain ⟨k, hk⟩ := hb.ledgerSize s hs
    rw [hk]
    exact ⟨hs, rfl⟩
  ledgerPage s hs offset max := by
    obtain ⟨s', hpage, hs', -, hsent⟩ := hb.ledgerPage s hs offset max
    rw [hpage]
    refine ⟨⟨hs', hsent⟩, fun page h row hrow => ?_⟩
    cases h
    exact List.mem_of_mem_drop (List.mem_of_mem_take hrow)
  publish s hs views k := ⟨(hb.publish s hs views k).1, (hb.publish s hs views k).2.2⟩

/-- The view is what the target is given of the payload of one of the rows. -/
def Given (rows : List StoredTx) (owned : SortedSet PublicKey) (target : PublicKey) (v : Payload) : Prop :=
  ∃ row ∈ rows, ∃ p, Payload.decode row.raw = .ok p ∧ p.GivenAs owned target v

/-- Beyond `before`, the target was sent no view but such. -/
structure Told (rows : List StoredTx) (owned : SortedSet PublicKey) (I : σ → Prop) (j : Journal σ α β)
    (target : PublicKey) (before : List α) (s : σ) : Prop where
  keeps : I s
  sent : ∃ batches : List (List Payload), j.sent s = before ++ batches.map (j.entry · target) ∧
    ∀ views ∈ batches, ∀ v ∈ views, Given rows owned target v

theorem Told.quiet (h : Told rows owned I j target before s) (hs : Quiet I j s s') :
    Told rows owned I j target before s' :=
  ⟨hs.1, hs.2 ▸ h.sent⟩

namespace Reports

theorem publishes (hb : b.Reports rows owned I j) {views : List Payload}
    (hviews : ∀ v ∈ views, Given rows owned target v) :
    (liftM (b.publish views target) : Op ResendError σ Unit).Yields (Told rows owned I j target before)
      fun _ => True := by
  refine .lift fun s hs => ⟨?_, trivial⟩
  obtain ⟨batches, hsent, hgiven⟩ := hs.sent
  obtain ⟨hkeep, hsent'⟩ := hb.publish s hs.keeps views target
  refine ⟨hkeep, batches ++ [views], ?_, fun vs hvs => ?_⟩
  · rw [hsent', hsent, List.map_append, List.append_assoc]
    rfl
  · rcases List.mem_append.1 hvs with hvs | hvs
    · exact hgiven vs hvs
    · rw [List.mem_singleton.1 hvs]
      exact hviews

theorem openingKey (hb : b.Reports rows owned I j) (ks : List PublicKey) :
    (b.openingKey p ks).Yields (Told rows owned I j target before) (· ∈ ks) := by
  induction ks with
  | nil => exact .throw _
  | cons k ks ih =>
    have hopen : (liftM (b.openPayload p k) : Op ResendError σ _).Yields (Told rows owned I j target before)
        fun _ => True := .lift fun s hs => ⟨hs.quiet (hb.openPayload s hs.keeps p k), trivial⟩
    have hrest : (b.openingKey p ks).Yields (Told rows owned I j target before) (· ∈ k :: ks) := fun s hs =>
      ⟨(ih s hs).1, fun k' hk' => List.mem_cons_of_mem _ ((ih s hs).2 k' hk')⟩
    unfold Backend.openingKey
    refine hopen.bind fun answer _ => ?_
    rcases answer with (_ | _ | _) | _
    · exact hrest
    · exact .throw _
    · exact hrest
    · exact .pure List.mem_cons_self

theorem roleOf (hb : b.Reports rows owned I j) (target : PublicKey) (p : Payload) :
    (b.roleOf owned target p).Yields (Told rows owned I j target before) (Role.IsFor owned target p) := by
  unfold Backend.roleOf
  split
  · rename_i howned
    exact .pure howned
  · rename_i howned
    split
    · exact .pure trivial
    · rename_i hrelated
      have hparty : p.sender = target ∨ target ∈ p.recipients := by
        by_cases hsender : p.sender = target
        · exact .inl hsender
        · exact .inr (Payload.hasRecipient_iff.1 (by simpa [hsender] using hrelated))
      exact (hb.openingKey owned.toList).bind fun k hk => .pure ⟨howned, hk, hparty⟩

theorem enqueue (hb : b.Reports rows owned I j) (hw : ∀ v ∈ waiting, Given rows owned target v) {view : Payload}
    (hv : Given rows owned target view) :
    (b.enqueue limit target waiting view).Yields (Told rows owned I j target before)
      fun waiting => ∀ v ∈ waiting, Given rows owned target v := by
  have hviews : ∀ v ∈ waiting ++ [view], Given rows owned target v := fun v hmem =>
    (List.mem_append.1 hmem).elim (hw v) fun h => List.mem_singleton.1 h ▸ hv
  unfold Backend.enqueue
  dsimp only
  split
  · exact (hb.publishes hviews).bind fun _ _ => .pure nofun
  · exact .pure hviews

theorem flush (hb : b.Reports rows owned I j) (hw : ∀ v ∈ waiting, Given rows owned target v) :
    (b.flush target waiting).Yields (Told rows owned I j target before) fun _ => True := by
  unfold Backend.flush
  split
  · exact .pure trivial
  · exact hb.publishes hw

theorem examine (hb : b.Reports rows owned I j) {row : StoredTx} (hrow : row ∈ rows)
    (hw : ∀ v ∈ waiting, Given rows owned target v) :
    (b.examine owned limit target waiting row).Yields (Told rows owned I j target before)
      fun waiting => ∀ v ∈ waiting, Given rows owned target v := by
  unfold Backend.examine
  refine (Op.Yields.ofExcept _ _).bind fun p hp => (hb.roleOf target p).bind fun role hrole =>
    (Op.Yields.ofExcept _ _).bind fun view hview => ?_
  cases view with
  | none => exact .pure hw
  | some view => exact hb.enqueue hw ⟨row, hrow, p, hp, hrole.givenAs hview⟩

theorem examineFrom (hb : b.Reports rows owned I j) (count offset : Nat)
    (hw : ∀ v ∈ waiting, Given rows owned target v) :
    (b.examineFrom owned limit target count offset waiting).Yields (Told rows owned I j target before)
      fun end_ => ∀ v ∈ end_.2, Given rows owned target v := by
  induction hk : count - offset using Nat.strongRecOn generalizing offset waiting with
  | _ k ih =>
    subst hk
    unfold Backend.examineFrom
    split
    · have hpage : (b.ledgerPage offset (min limit (count - offset))).Yields (Told rows owned I j target before)
          fun page => ∀ row ∈ page, row ∈ rows := fun s hs => by
        obtain ⟨hquiet, hmem⟩ := hb.ledgerPage s hs.keeps offset (min limit (count - offset))
        exact ⟨hs.quiet hquiet, hmem⟩
      refine (hpage.mapError ResendError.db).bind fun page hmem => ?_
      cases page with
      | nil => exact .pure hw
      | cons row page =>
        refine (Op.Yields.foldlM (fun waiting hw row hrow => hb.examine (hmem row hrow) hw) hw).bind
          fun waiting hw => ih _ (by omega) _ hw rfl
    · exact .pure hw

theorem resend (hb : b.Reports rows owned I j) {request : ResendRequest}
    (ht : PublicKey.ofBase64 request.target = .ok target) :
    (b.resend request).Yields (Told rows owned I j target before) fun _ => True := by
  have hstatus : (liftM b.enclaveStatus : Op ResendError σ _).Yields (Told rows owned I j target before)
      fun _ => True := .lift fun s hs => ⟨hs.quiet (hb.status s hs.keeps), trivial⟩
  have howned : (liftM b.ownedKeys : Op ResendError σ _).Yields (Told rows owned I j target before)
      (· = owned) := .lift fun s hs => ⟨hs.quiet (hb.ownedKeys s hs.keeps).1, (hb.ownedKeys s hs.keeps).2⟩
  have hsize : (b.ledgerSize.mapError ResendError.db).Yields (Told rows owned I j target before)
      fun _ => True := .mapError _ fun s hs => ⟨hs.quiet (hb.ledgerSize s hs.keeps), fun _ _ => trivial⟩
  unfold Backend.resend
  refine hstatus.bind fun status _ => ?_
  dsimp only
  split
  · exact .throw_bind _ _
  split
  · exact .throw_bind _ _
  refine (Op.Yields.ofExcept _ _).bind fun target' ht' => ?_
  cases ht.symm.trans ht'
  refine howned.bind fun keys hkeys => ?_
  subst hkeys
  refine hsize.bind fun count _ => (hb.examineFrom count 0 fun _ h => absurd h List.not_mem_nil).bind fun end_ hw => ?_
  exact (hb.flush hw).bind fun _ _ => hsize.bind fun _ _ => .pure trivial

end Reports

/-- Every view that is sent is one of a kept payload. Of a standard private one, sent to another party than its
sender, it is for that party alone where the sender's key is owned; where it is not, it is all that is kept. -/
theorem resend_discloses (hb : b.Reports rows owned I j) (hs : I s) {request : ResendRequest}
    (ht : PublicKey.ofBase64 request.target = .ok target) :
    ∃ batches : List (List Payload), j.sent ((b.resend request).eval s).2 =
        j.sent s ++ batches.map (j.entry · target) ∧
      ∀ views ∈ batches, ∀ v ∈ views, ∃ row ∈ rows, ∃ p, Payload.decode row.raw = .ok p ∧
        v = { p with recipients := v.recipients, boxes := v.boxes } ∧
        (p.mode = .standard → target ≠ p.sender →
          (p.sender ∈ owned → p.forRecipient target = .ok v ∧ p.OnlyFor target v) ∧
          (p.sender ∉ owned → ∃ k ∈ owned, v = p.withRecipient k ∧
            (p.OnlyFor target v ↔ p.recipients = [target] ∧ p.boxes.length = 1 ∧ k = target))) := by
  have hbegin : Told rows owned I j target (j.sent s) s := ⟨hs, [], by simp, nofun⟩
  obtain ⟨batches, hsent, hgiven⟩ := (hb.resend ht s hbegin).1.sent
  refine ⟨batches, hsent, fun views hviews v hv => ?_⟩
  obtain ⟨row, hrow, p, hp, hgiven⟩ := hgiven views hviews v hv
  refine ⟨row, hrow, p, hp, hgiven.eq, fun hm hne => ⟨fun howned => ?_, fun hnot => ?_⟩⟩
  · have hown := hgiven.own howned
    rw [hm] at hown
    exact ⟨hown, Payload.onlyFor_of_forRecipient hown⟩
  · obtain ⟨k, hk, rfl⟩ := hgiven.relayed hnot
    have hlisted := hgiven.party.resolve_left fun h => hne h.symm
    exact ⟨k, hk, rfl, Payload.onlyFor_withRecipient hlisted⟩

/-- A payload of the party 9 to the parties 2 and 1. -/
def sampleRelayed : Payload :=
  ⟨party 9, [1], default, [[2], [1]], default, [party 2, party 1], .standard, .empty, []⟩

/-- The archive of the party 1, whose enclave opens everything. -/
def relayArchive : Archive :=
  ⟨[⟨sampleRelayed.hash, sampleRelayed.encode⟩], .ofList [party 1], fun _ _ => .ok []⟩

/-- What the party 2 is sent from it. -/
def relayed : List (List Payload × PublicKey) :=
  (((relayArchive.backend 1).resend ⟨(party 2).toBase64, 1⟩).eval ([], [])).2.2

theorem relayed_eq :
    PublicKey.ofBase64 (ResendRequest.mk (party 2).toBase64 1).target = .ok (party 2) ∧
    Payload.decode sampleRelayed.encode = .ok sampleRelayed ∧ relayed = [([sampleRelayed], party 2)] := by
  decide +kernel

theorem relayed_discloses : ∃ batches : List (List Payload), batches ≠ [] ∧ relayed = batches.map (·, party 2) ∧
    ∀ views ∈ batches, ∀ v ∈ views, ∃ k ∈ relayArchive.owned, v = sampleRelayed.withRecipient k ∧
      ¬ sampleRelayed.OnlyFor (party 2) v := by
  obtain ⟨ht, hdecode, heq⟩ := relayed_eq
  obtain ⟨batches, hsent, hviews⟩ :=
    resend_discloses (relayArchive.backend_over 1).reports (s := ([], [])) trivial ht
  have hsent : relayed = batches.map (·, party 2) := hsent
  refine ⟨batches, fun hnil => ?_, hsent, fun views hmem v hv => ?_⟩
  · rw [hnil, heq] at hsent
    exact nomatch hsent
  · obtain ⟨row, hrow, p, hp, -, hstandard⟩ := hviews views hmem v hv
    cases List.mem_singleton.1 hrow
    cases hdecode.symm.trans hp
    obtain ⟨k, hk, hview, honly⟩ := (hstandard rfl (by decide)).2 (by decide)
    exact ⟨k, hk, hview, fun h => absurd (honly.1 h).1 (by decide)⟩

/-- So a recipient may be shown the box of another one. -/
theorem relay_shows_other_boxes : ¬ ∀ (x : Archive) (count : Nat) (request : ResendRequest) (target : PublicKey),
    PublicKey.ofBase64 request.target = .ok target →
    ∀ e ∈ (((x.backend count).resend request).eval ([], [])).2.2, ∀ v ∈ e.1,
      ∀ row ∈ x.rows, ∀ p, Payload.decode row.raw = .ok p → v.hash = p.hash → p.mode = .standard →
        target ≠ p.sender → p.OnlyFor target v := by
  intro hall
  obtain ⟨ht, hdecode, heq⟩ := relayed_eq
  have hsent : ([sampleRelayed], party 2) ∈ relayed := heq ▸ List.mem_singleton_self _
  have honly : sampleRelayed.OnlyFor (party 2) sampleRelayed :=
    hall relayArchive 1 ⟨(party 2).toBase64, 1⟩ (party 2) ht _ hsent sampleRelayed List.mem_cons_self
      ⟨sampleRelayed.hash, sampleRelayed.encode⟩ List.mem_cons_self sampleRelayed hdecode rfl rfl (by decide)
  exact absurd honly.1 (by decide)

end Backend

end TxRecovery
