import TxRecovery.Proofs.Ledger.Lookup

/-!
# What a commit does

Over a sound ledger with room for the payload, `Ledger.commit` either refuses on grounds of privacy or
is `Accepted`: the payload's row is there afterwards in its mode, with every key that the payload pairs
with a box, what was stored under the hash is extended, and no other row changes (`commit_cases`).
`Passes` says when it is accepted.
-/

namespace TxRecovery

theorem forM_eq_ok_iff {ε α : Type} {f : α → Except ε Unit} {xs : List α} :
    xs.forM f = .ok () ↔ ∀ x ∈ xs, f x = .ok () := by
  induction xs with
  | nil => exact ⟨fun _ _ h => absurd h List.not_mem_nil, fun _ => rfl⟩
  | cons x xs ih =>
    have hcons : (x :: xs).forM f = f x >>= fun _ => xs.forM f := rfl
    rw [hcons, List.forall_mem_cons, ← ih]
    cases hx : f x with
    | error e => exact ⟨nofun, fun h => nomatch h.1⟩
    | ok u => exact ⟨fun h => ⟨rfl, h⟩, fun h => h.2⟩

theorem forM_congr {ε α : Type} {f g : α → Except ε Unit} {xs : List α} (h : ∀ x ∈ xs, f x = g x) :
    xs.forM f = xs.forM g := by
  induction xs with
  | nil => rfl
  | cons x xs ih =>
    obtain ⟨hx, hxs⟩ := List.forall_mem_cons.1 h
    show f x >>= (fun _ => xs.forM f) = g x >>= fun _ => xs.forM g
    rw [hx, ih hxs]

theorem forM_ok_or {ε α : Type} {f : α → Except ε Unit} {P : ε → Prop} {xs : List α}
    (h : ∀ x ∈ xs, f x = .ok () ∨ ∃ e, f x = .error e ∧ P e) :
    xs.forM f = .ok () ∨ ∃ e, xs.forM f = .error e ∧ P e := by
  induction xs with
  | nil => exact .inl rfl
  | cons x xs ih =>
    have hcons : (x :: xs).forM f = f x >>= fun _ => xs.forM f := rfl
    obtain ⟨hx, hxs⟩ := List.forall_mem_cons.1 h
    rcases hx with hx | ⟨e, hx, he⟩
    · rw [hcons, hx]
      exact ih hxs
    · exact .inr ⟨e, by rw [hcons, hx]; rfl, he⟩

namespace Ledger

variable {l l' : Ledger} {raw : Bytes} {p q s : Payload} {h : TxHash} {m : PrivacyMode}

/-! ### Privacy -/

def IsPrivacy (e : CommitError) : Prop := ∃ v, e = .privacy v

/-- A payload of mode `m` may affect `h`. -/
def MayAffect (l : Ledger) (m : PrivacyMode) (h : TxHash) : Prop :=
  if m.isStandard then ∀ s, l.payload? h = .ok (some s) → s.mode.isStandard
  else ∃ s, l.payload? h = .ok (some s) ∧ s.mode = m

theorem checkAffected_cases (hl : l.Sound) (m : PrivacyMode) (h : TxHash) :
    l.checkAffected m h = .ok () ∨ ∃ e, l.checkAffected m h = .error e ∧ IsPrivacy e := by
  rcases hl.payload?_cases h with hs | ⟨s, hs⟩
  · cases hm : m.isStandard
    · exact .inr ⟨.privacy (.unknownAffected h), by simp [checkAffected, hs, hm, bind, Except.bind], _, rfl⟩
    · exact .inl (by simp [checkAffected, hs, hm, bind, Except.bind])
  · cases hm : m.isStandard
    · by_cases he : s.mode = m
      · exact .inl (by simp [checkAffected, hs, hm, he, bind, Except.bind])
      · exact .inr ⟨.privacy (.affectedMode h s.mode m),
          by simp [checkAffected, hs, hm, he, bind, Except.bind], _, rfl⟩
    · cases he : s.mode.isStandard
      · exact .inr ⟨.privacy (.standardAffects s.mode h),
          by simp [checkAffected, hs, hm, he, bind, Except.bind], _, rfl⟩
      · exact .inl (by simp [checkAffected, hs, hm, he, bind, Except.bind])

theorem checkAffected_eq_ok (hl : l.Sound) : l.checkAffected m h = .ok () ↔ l.MayAffect m h := by
  unfold MayAffect
  rcases hl.payload?_cases h with hs | ⟨s, hs⟩
  · cases hm : m.isStandard <;> simp [checkAffected, hs, hm, bind, Except.bind]
  · cases hm : m.isStandard
    · by_cases he : s.mode = m <;> simp [checkAffected, hs, hm, he, bind, Except.bind]
    · cases he : s.mode.isStandard <;> simp [checkAffected, hs, hm, he, bind, Except.bind]

theorem checkPrivacy_cases (hl : l.Sound) (p : Payload) :
    l.checkPrivacy p = .ok () ∨ ∃ e, l.checkPrivacy p = .error e ∧ IsPrivacy e := by
  unfold checkPrivacy
  split
  · exact .inr ⟨_, rfl, _, rfl⟩
  · exact forM_ok_or fun a _ => checkAffected_cases hl p.mode a

theorem checkPrivacy_eq_ok (hl : l.Sound) :
    l.checkPrivacy p = .ok () ↔
      (p.mode = .stateValidation → p.execHash ≠ []) ∧ ∀ a ∈ p.affected.keys, l.MayAffect p.mode a := by
  unfold checkPrivacy
  split
  · rename_i hx
    exact ⟨nofun, fun h => absurd hx.2 (h.1 hx.1)⟩
  · rename_i hx
    rw [forM_eq_ok_iff]
    simp only [checkAffected_eq_ok hl]
    exact ⟨fun h => ⟨fun hm he => hx ⟨hm, he⟩, h⟩, fun h => h.2⟩

/-- The checks read what is stored under the affected hashes, and nothing else. -/
theorem checkPrivacy_congr (h : ∀ a ∈ p.affected.keys, l'.payload? a = l.payload? a) :
    l'.checkPrivacy p = l.checkPrivacy p := by
  unfold checkPrivacy
  split
  · rfl
  · refine forM_congr fun a ha => ?_
    unfold checkAffected
    rw [h a ha]

/-! ### Accepted payloads -/

/-- The ledger lists, in the payload's mode, every key that the payload pairs with a box. -/
def Covers (l : Ledger) (p : Payload) : Prop :=
  ∃ q, l.payload? p.hash = .ok (some q) ∧ q.mode = p.mode ∧
    ∀ e ∈ p.recipients.zip p.boxes, e.1 ∈ q.recipients

/-- Whatever `l` stores is stored in `l'`, possibly extended. -/
def Extends (l l' : Ledger) : Prop :=
  ∀ h s, l.payload? h = .ok (some s) → ∃ q, l'.payload? h = .ok (some q) ∧ s.Extends q

theorem Extends.refl (l : Ledger) : l.Extends l := fun _ s hs => ⟨s, hs, .refl s⟩

theorem Extends.trans {l'' : Ledger} (h₁ : l.Extends l') (h₂ : l'.Extends l'') : l.Extends l'' := by
  intro h s hs
  obtain ⟨q, hq, hsq⟩ := h₁ h s hs
  obtain ⟨r, hr, hqr⟩ := h₂ h q hq
  exact ⟨r, hr, hsq.trans hqr⟩

theorem Covers.extends (hc : l.Covers p) (he : l.Extends l') : l'.Covers p := by
  obtain ⟨q, hq, hm, hk⟩ := hc
  obtain ⟨r, hr, hqr⟩ := he _ q hq
  exact ⟨r, hr, hqr.mode.trans hm, fun e hz => hqr.mem_recipients (hk e hz)⟩

/-- `l'` is what the commit of `p`, in the form `raw`, makes of `l`. -/
structure Accepted (l : Ledger) (raw : Bytes) (p : Payload) (l' : Ledger) : Prop where
  commit : l.commit raw = .ok (p.hash, l')
  sound : l'.Sound
  frame : ∀ h, h ≠ p.hash → l'.find? h = l.find? h
  weight : l'.weight p.hash ≤ l.weight p.hash + raw.length
  covers : l'.Covers p
  extends_ : l.Extends l'

structure Passes (l : Ledger) (p : Payload) : Prop where
  execHash : p.mode = .stateValidation → p.execHash ≠ []
  affected : ∀ a ∈ p.affected.keys, l.MayAffect p.mode a
  stored : ∀ s, l.payload? p.hash = .ok (some s) → s.mode = p.mode

theorem commit_of_none (hp : Payload.decode raw = .ok p) (hc : l.checkPrivacy p = .ok ())
    (hs : l.payload? p.hash = .ok none) : l.commit raw = .ok (p.hash, l.save ⟨p.hash, raw⟩) := by
  simp only [Ledger.commit, hp, hc, hs, Except.mapError, bind, Except.bind]

theorem commit_of_some (hp : Payload.decode raw = .ok p) (hc : l.checkPrivacy p = .ok ())
    (hs : l.payload? p.hash = .ok (some s)) (hm : s.mode = p.mode) :
    l.commit raw = .ok (p.hash,
      if s.mergeRecipients p = s then l else l.save ⟨p.hash, (s.mergeRecipients p).encode⟩) := by
  simp only [Ledger.commit, hp, hc, hs, hm, Except.mapError, bind, Except.bind, ne_eq, not_true_eq_false,
    ite_false]
  split <;> rfl

theorem commit_of_checkPrivacy {e : CommitError} (hp : Payload.decode raw = .ok p)
    (hc : l.checkPrivacy p = .error e) : l.commit raw = .error e := by
  simp only [Ledger.commit, hp, hc, Except.mapError, bind, Except.bind]

theorem commit_of_mode_ne (hp : Payload.decode raw = .ok p) (hc : l.checkPrivacy p = .ok ())
    (hs : l.payload? p.hash = .ok (some s)) (hm : s.mode ≠ p.mode) :
    l.commit raw = .error (.privacy (.storedMode p.hash s.mode)) := by
  simp only [Ledger.commit, hp, hc, hs, Except.mapError, bind, Except.bind, ne_eq, hm, not_false_eq_true, ite_true]

/-- What is committed passed every check, and was stored as it is or merged into what was stored. -/
theorem exists_of_commit (hc : l.commit raw = .ok (h, l')) :
    ∃ p, Payload.decode raw = .ok p ∧ h = p.hash ∧ l.checkPrivacy p = .ok () ∧
      (l.payload? p.hash = .ok none ∧ l' = l.save ⟨p.hash, raw⟩ ∨
        ∃ s, l.payload? p.hash = .ok (some s) ∧ s.mode = p.mode ∧
          l' = if s.mergeRecipients p = s then l else l.save ⟨p.hash, (s.mergeRecipients p).encode⟩) := by
  unfold Ledger.commit at hc
  cases hp : Payload.decode raw with
  | error e =>
    rw [hp] at hc
    exact nomatch hc
  | ok p =>
    simp only [hp, Except.mapError, bind, Except.bind] at hc
    cases hcheck : l.checkPrivacy p with
    | error e =>
      rw [hcheck] at hc
      exact nomatch hc
    | ok u =>
      rw [hcheck] at hc
      cases hs : l.payload? p.hash with
      | error e =>
        rw [hs] at hc
        exact nomatch hc
      | ok stored =>
        rw [hs] at hc
        cases stored with
        | none =>
          cases hc
          exact ⟨p, rfl, rfl, hcheck, .inl ⟨hs, rfl⟩⟩
        | some s =>
          by_cases hm : s.mode = p.mode
          · simp only [hm, ne_eq, not_true_eq_false, ite_false] at hc
            split at hc
            · rename_i hsame
              cases hc
              exact ⟨p, rfl, rfl, hcheck, .inr ⟨s, hs, hm, (if_pos hsame).symm⟩⟩
            · rename_i hsame
              cases hc
              exact ⟨p, rfl, rfl, hcheck, .inr ⟨s, hs, hm, (if_neg hsame).symm⟩⟩
          · simp only [ne_eq, hm, not_false_eq_true, ite_true] at hc
            exact nomatch hc

theorem extends_save {t : StoredTx} {r : Payload} (ht : t.hash.bytes.length < UInt64.size)
    (hr : t.raw.length < UInt64.size) (hd : Payload.decode t.raw = .ok r)
    (he : ∀ s, l.payload? t.hash = .ok (some s) → s.Extends r) : l.Extends (l.save t) := by
  intro g s hs
  by_cases hg : g = t.hash
  · subst hg
    exact ⟨r, payload?_of_find? (find?_save_self l ht hr) hd, he s hs⟩
  · exact ⟨s, (payload?_congr (find?_save_of_ne l hg)).trans hs, .refl s⟩

theorem accepted_of_none (hl : l.Sound) (hp : Payload.decode raw = .ok p)
    (hraw : raw.length < UInt64.size) (hc : l.checkPrivacy p = .ok ())
    (hs : l.payload? p.hash = .ok none) : l.Accepted raw p (l.save ⟨p.hash, raw⟩) := by
  have hf := find?_save_self l (t := ⟨p.hash, raw⟩) p.length_hash_lt hraw
  refine ⟨commit_of_none hp hc hs, hl.save p.length_hash_lt hraw hp, fun h hne => find?_save_of_ne l hne,
    ?_, ⟨p, payload?_of_find? hf hp, rfl, fun e he => (List.of_mem_zip he).1⟩,
    extends_save p.length_hash_lt hraw hp fun s hs' => ?_⟩
  · rw [weight_of_find? hf]
    exact Nat.le_add_left _ _
  · rw [hs] at hs'
    exact nomatch hs'

/-- The merged payload takes no more room than the stored one and the view together. -/
theorem length_merged_le {stored : Bytes} (hs : Payload.decode stored = .ok s)
    (hp : Payload.decode raw = .ok p) :
    (s.mergeRecipients p).encode.length ≤ stored.length + raw.length :=
  Nat.le_trans (Payload.length_encode_merge_le s p)
    (Nat.add_le_add (Payload.length_encode_le hs) (Payload.length_encode_le hp))

theorem accepted_of_some {t : StoredTx} (hl : l.Sound) (hp : Payload.decode raw = .ok p)
    (ht : l.find? p.hash = .ok (some t)) (hs : Payload.decode t.raw = .ok s)
    (hlt : (s.mergeRecipients p).encode.length < UInt64.size) (hc : l.checkPrivacy p = .ok ())
    (hm : s.mode = p.mode) : ∃ l', l.Accepted raw p l' := by
  have hps := payload?_of_find? ht hs
  have hcommit := commit_of_some hp hc hps hm
  have hext := Payload.extends_mergeRecipients s p
  have hkeys : ∀ e ∈ p.recipients.zip p.boxes, e.1 ∈ (s.mergeRecipients p).recipients :=
    fun e he => Payload.mem_mergeRecipients s he
  by_cases hsame : s.mergeRecipients p = s
  · rw [if_pos hsame] at hcommit
    rw [hsame] at hkeys
    exact ⟨l, hcommit, hl, fun _ _ => rfl, Nat.le_add_right _ _, ⟨s, hps, hm, hkeys⟩, .refl l⟩
  · rw [if_neg hsame] at hcommit
    have hd := Payload.decode_encode (Payload.fits_of_length_lt hlt)
    have hf := find?_save_self l (t := ⟨p.hash, (s.mergeRecipients p).encode⟩) p.length_hash_lt hlt
    refine ⟨_, hcommit, hl.save p.length_hash_lt hlt hd, fun h hne => find?_save_of_ne l hne, ?_,
      ⟨_, payload?_of_find? hf hd, hext.mode.trans hm, hkeys⟩,
      extends_save p.length_hash_lt hlt hd fun s' hs' => ?_⟩
    · rw [weight_of_find? hf, weight_of_find? ht]
      exact length_merged_le hs hp
    · cases hps.symm.trans hs'
      exact hext

theorem exists_accepted (hl : l.Sound) (hp : Payload.decode raw = .ok p)
    (hroom : l.weight p.hash + raw.length < UInt64.size) (hpass : l.Passes p) :
    ∃ l', l.Accepted raw p l' := by
  have hc := (checkPrivacy_eq_ok hl).2 ⟨hpass.execHash, hpass.affected⟩
  rcases hl.find?_cases p.hash with hf | ⟨t, s, hf, hs⟩
  · exact ⟨_, accepted_of_none hl hp (by omega) hc (payload?_of_find?_none hf)⟩
  · rw [weight_of_find? hf] at hroom
    exact accepted_of_some hl hp hf hs (Nat.lt_of_le_of_lt (length_merged_le hs hp) hroom) hc (hpass.stored s (payload?_of_find? hf hs))

theorem commit_cases (hl : l.Sound) (hp : Payload.decode raw = .ok p)
    (hroom : l.weight p.hash + raw.length < UInt64.size) :
    (∃ v, l.commit raw = .error (.privacy v)) ∨ ∃ l', l.Accepted raw p l' := by
  rcases checkPrivacy_cases hl p with hc | ⟨e, hc, v, rfl⟩
  · rcases hl.payload?_cases p.hash with hs | ⟨s, hs⟩
    · exact .inr (exists_accepted hl hp hroom ⟨((checkPrivacy_eq_ok hl).1 hc).1,
        ((checkPrivacy_eq_ok hl).1 hc).2, fun s hs' => nomatch hs.symm.trans hs'⟩)
    · by_cases hm : s.mode = p.mode
      · refine .inr (exists_accepted hl hp hroom ⟨((checkPrivacy_eq_ok hl).1 hc).1,
          ((checkPrivacy_eq_ok hl).1 hc).2, fun s' hs' => ?_⟩)
        cases hs.symm.trans hs'
        exact hm
      · exact .inl ⟨_, commit_of_mode_ne hp hc hs hm⟩
  · exact .inl ⟨v, commit_of_checkPrivacy hp hc⟩

end Ledger

end TxRecovery
