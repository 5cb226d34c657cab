import TxRecovery.Outcome
import TxRecovery.Proofs.Ledger.Commit

/-!
# Committing one payload after the other

`Ledger.replay` is what a synchronisation does to the ledger: it commits the payloads in order, counts
those that are refused on grounds of privacy, and ends at any other failure. With room for all of them
(`HasRoom`) there is no other failure, and if none was refused the ledger covers them all
(`Replayed.covers`). None is refused if each `Follows` those before it (`exists_replayed_of_follows`).
Payloads of new transactions are stored as they are (`get?_of_replay`).
-/

namespace TxRecovery

namespace Payload

/-- Whether these bytes are a payload of the transaction `h`. -/
def isOf (h : TxHash) (raw : Bytes) : Bool :=
  match decode raw with
  | .ok p => p.hash = h
  | .error _ => false

theorem isOf_of_decode {raw : Bytes} {p : Payload} (hp : decode raw = .ok p) (h : TxHash) :
    isOf h raw = decide (p.hash = h) := by
  simp only [isOf, hp]

/-- How many of these bytes are for the transaction `h`. -/
def bytesOf (h : TxHash) (raws : List Bytes) : Nat :=
  ((raws.filter (isOf h)).map List.length).sum

theorem bytesOf_cons_self {raw : Bytes} {p : Payload} (hp : decode raw = .ok p) (raws : List Bytes) :
    bytesOf p.hash (raw :: raws) = raw.length + bytesOf p.hash raws := by
  simp [bytesOf, isOf_of_decode hp]

theorem bytesOf_le_cons (h : TxHash) (raw : Bytes) (raws : List Bytes) :
    bytesOf h raws ≤ bytesOf h (raw :: raws) := by
  unfold bytesOf
  rw [List.filter_cons]
  split
  · simp
  · exact Nat.le_refl _

end Payload

namespace Ledger

variable {l l' : Ledger} {raw : Bytes} {raws : List Bytes} {p : Payload} {t : Tally}

def replay (l : Ledger) (t : Tally) : List Bytes → Except CommitError Tally × Ledger
  | [] => (.ok t, l)
  | raw :: raws =>
    match l.commit raw with
    | .ok (_, l') => l'.replay t.accept raws
    | .error (.privacy _) => l.replay t.refuse raws
    | .error e => (.error e, l)

theorem replay_append (l : Ledger) (t : Tally) (xs ys : List Bytes) :
    l.replay t (xs ++ ys) =
      match l.replay t xs with
      | (.ok t', l') => l'.replay t' ys
      | (.error e, l') => (.error e, l') := by
  induction xs generalizing l t with
  | nil => rfl
  | cons x xs ih =>
    simp only [List.cons_append, replay]
    split
    · exact ih _ _
    · exact ih _ _
    · rfl

/-- A replay that ends well committed each payload, or refused it on grounds of privacy. -/
theorem commit_of_replay {t' : Tally} {done todo : List Bytes} (hr : l.replay t (done ++ raw :: todo) = (.ok t', l')) :
    (∃ h l₂, (l.replay t done).2.commit raw = .ok (h, l₂)) ∨
      ∃ v, (l.replay t done).2.commit raw = .error (.privacy v) := by
  rw [replay_append] at hr
  rcases hdone : l.replay t done with ⟨e | t₁, l₁⟩
  · rw [hdone] at hr
    exact nomatch hr
  · simp only [hdone, replay] at hr
    cases hc : l₁.commit raw with
    | ok r => exact .inl ⟨r.1, r.2, rfl⟩
    | error e =>
      rw [hc] at hr
      cases e with
      | privacy v => exact .inr ⟨v, rfl⟩
      | _ => exact nomatch hr

/-- Whatever comes to be stored under a hash can be written down. -/
def HasRoom (l : Ledger) (raws : List Bytes) : Prop :=
  ∀ h, l.weight h + Payload.bytesOf h raws < UInt64.size

theorem HasRoom.head (hr : l.HasRoom (raw :: raws)) (hp : Payload.decode raw = .ok p) :
    l.weight p.hash + raw.length < UInt64.size := by
  have h := hr p.hash
  rw [Payload.bytesOf_cons_self hp] at h
  omega

theorem HasRoom.tail (hr : l.HasRoom (raw :: raws)) : l.HasRoom raws := fun h => by
  have := hr h
  have := Payload.bytesOf_le_cons h raw raws
  omega

theorem HasRoom.accepted (hr : l.HasRoom (raw :: raws)) (hp : Payload.decode raw = .ok p)
    (ha : l.Accepted raw p l') : l'.HasRoom raws := by
  intro h
  by_cases hh : h = p.hash
  · subst hh
    have := hr p.hash
    rw [Payload.bytesOf_cons_self hp] at this
    have := ha.weight
    omega
  · rw [weight_congr (ha.frame h hh)]
    exact hr.tail h

/-- What a replay leaves: a tally of all payloads and a ledger that extends the one it began with. -/
structure Replayed (l : Ledger) (t : Tally) (raws : List Bytes) (t' : Tally) (l' : Ledger) : Prop where
  replay : l.replay t raws = (.ok t', l')
  sound : l'.Sound
  extends_ : l.Extends l'
  attempted : t'.attempted = t.attempted + raws.length
  violations : t.violations ≤ t'.violations
  /-- If none was refused, all are covered. -/
  covers : t'.violations = t.violations → ∀ raw ∈ raws, ∀ p, Payload.decode raw = .ok p → l'.Covers p

theorem Replayed.accept {t' : Tally} {l'' : Ledger} (hp : Payload.decode raw = .ok p)
    (ha : l.Accepted raw p l') (hr : Replayed l' t.accept raws t' l'') :
    Replayed l t (raw :: raws) t' l'' := by
  refine ⟨?_, hr.sound, ha.extends_.trans hr.extends_, ?_, hr.violations, fun hv => ?_⟩
  · simp only [Ledger.replay, ha.commit]
    exact hr.replay
  · have := hr.attempted
    simp only [Tally.accept, List.length_cons] at this ⊢
    omega
  · refine List.forall_mem_cons.2 ⟨fun p' hp' => ?_, hr.covers hv⟩
    cases hp.symm.trans hp'
    exact ha.covers.extends hr.extends_

theorem Replayed.refuse {t' : Tally} {l'' : Ledger} {v : PrivacyViolation}
    (hc : l.commit raw = .error (.privacy v)) (hr : Replayed l t.refuse raws t' l'') :
    Replayed l t (raw :: raws) t' l'' := by
  have hlt : t.violations + 1 ≤ t'.violations := hr.violations
  refine ⟨?_, hr.sound, hr.extends_, ?_, by omega, fun hv => by omega⟩
  · simp only [Ledger.replay, hc]
    exact hr.replay
  · have := hr.attempted
    simp only [Tally.refuse, List.length_cons] at this ⊢
    omega

theorem exists_replayed (hl : l.Sound) (hd : ∀ raw ∈ raws, ∃ p, Payload.decode raw = .ok p)
    (hr : l.HasRoom raws) (t : Tally) : ∃ t' l', Replayed l t raws t' l' := by
  induction raws generalizing l t with
  | nil => exact ⟨t, l, rfl, hl, .refl l, rfl, Nat.le_refl _, fun _ _ h => absurd h List.not_mem_nil⟩
  | cons raw raws ih =>
    obtain ⟨⟨p, hp⟩, hds⟩ := List.forall_mem_cons.1 hd
    rcases commit_cases hl hp (hr.head hp) with ⟨v, hc⟩ | ⟨l', ha⟩
    · obtain ⟨t', l', h⟩ := ih hl hds hr.tail t.refuse
      exact ⟨t', l', h.refuse hc⟩
    · obtain ⟨t', l'', h⟩ := ih ha.sound hds (hr.accepted hp ha) t.accept
      exact ⟨t', l'', h.accept hp ha⟩

/-! ### When nothing is refused -/

/-- The payload `p` passes every check once those in `done` are committed over `l`. -/
structure Follows (l : Ledger) (done : List Bytes) (p : Payload) : Prop where
  execHash : p.mode = .stateValidation → p.execHash ≠ []
  /-- What a payload that is not standard private affects is there. -/
  known : p.mode.isStandard = false → ∀ a ∈ p.affected.keys,
    (∃ s, l.payload? a = .ok (some s)) ∨ ∃ raw ∈ done, ∃ q, Payload.decode raw = .ok q ∧ q.hash = a
  /-- The payload, what it affects and what is stored under these hashes are of one mode. -/
  agrees : ∀ a, a = p.hash ∨ a ∈ p.affected.keys →
    (∀ s, l.payload? a = .ok (some s) → s.mode = p.mode) ∧
      ∀ raw ∈ done, ∀ q, Payload.decode raw = .ok q → q.hash = a → q.mode = p.mode

theorem Follows.passes (hf : l.Follows [] p) : l.Passes p := by
  refine ⟨hf.execHash, fun a ha => ?_, (hf.agrees p.hash (.inl rfl)).1⟩
  have hmode := (hf.agrees a (.inr ha)).1
  unfold MayAffect
  split
  · rename_i hm
    exact fun s hs => hmode s hs ▸ hm
  · rename_i hm
    rcases hf.known (by simpa using hm) a ha with ⟨s, hs⟩ | ⟨_, h, _⟩
    · exact ⟨s, hs, hmode s hs⟩
    · exact absurd h List.not_mem_nil

theorem Follows.accepted {done : List Bytes} {r : Payload} (hp : Payload.decode raw = .ok p)
    (ha : l.Accepted raw p l') (hf : l.Follows (raw :: done) r) : l'.Follows done r := by
  obtain ⟨q, hq, hqm, -⟩ := ha.covers
  refine ⟨hf.execHash, fun hm a hka => ?_, fun a hka => ⟨fun s hs => ?_, fun raw' hraw' =>
    (hf.agrees a hka).2 raw' (List.mem_cons_of_mem _ hraw')⟩⟩
  · rcases hf.known hm a hka with ⟨s, hs⟩ | ⟨raw', hraw', q', hq', ha'⟩
    · obtain ⟨s', hs', -⟩ := ha.extends_ a s hs
      exact .inl ⟨s', hs'⟩
    · rcases List.mem_cons.1 hraw' with rfl | hraw'
      · cases hp.symm.trans hq'
        exact .inl ⟨q, ha' ▸ hq⟩
      · exact .inr ⟨raw', hraw', q', hq', ha'⟩
  · by_cases he : a = p.hash
    · subst he
      cases hq.symm.trans hs
      rw [hqm]
      exact (hf.agrees p.hash hka).2 raw List.mem_cons_self p hp rfl
    · rw [payload?_congr (ha.frame a he)] at hs
      exact (hf.agrees a hka).1 s hs

theorem exists_replayed_of_follows (hl : l.Sound) (hd : ∀ raw ∈ raws, ∃ p, Payload.decode raw = .ok p)
    (hr : l.HasRoom raws)
    (hf : ∀ done raw rest, raws = done ++ raw :: rest → ∀ p, Payload.decode raw = .ok p →
      l.Follows done p) (t : Tally) :
    ∃ t' l', Replayed l t raws t' l' ∧ t'.violations = t.violations := by
  induction raws generalizing l t with
  | nil =>
    exact ⟨t, l, ⟨rfl, hl, .refl l, rfl, Nat.le_refl _, fun _ _ h => absurd h List.not_mem_nil⟩, rfl⟩
  | cons raw raws ih =>
    obtain ⟨⟨p, hp⟩, hds⟩ := List.forall_mem_cons.1 hd
    obtain ⟨l', ha⟩ := exists_accepted hl hp (hr.head hp) (hf [] raw raws rfl p hp).passes
    obtain ⟨t', l'', h, hv⟩ := ih ha.sound hds (hr.accepted hp ha) (fun done raw' rest he p' hp' =>
      (hf (raw :: done) raw' rest (congrArg (raw :: ·) he) p' hp').accepted hp ha) t.accept
    exact ⟨t', l'', h.accept hp ha, hv⟩

/-! ### New transactions -/

/-- Payloads of transactions without a row in the ledger, one for each of them. -/
structure New (l : Ledger) (raws : List Bytes) : Prop where
  absent : ∀ raw ∈ raws, ∀ p, Payload.decode raw = .ok p → l.tree.get? p.hash.bytes = none
  distinct : raws.Pairwise fun raw raw' =>
    ∀ p q, Payload.decode raw = .ok p → Payload.decode raw' = .ok q → p.hash ≠ q.hash

theorem New.save (hn : l.New (raw :: raws)) (hp : Payload.decode raw = .ok p) :
    (l.save ⟨p.hash, raw⟩).New raws := by
  obtain ⟨hne, hdistinct⟩ := List.pairwise_cons.1 hn.distinct
  refine ⟨fun raw' hraw' q hq => ?_, hdistinct⟩
  rw [Ledger.save, SortedMap.get?_insert_of_ne _ (TxHash.bytes_ne (hne raw' hraw' p q hp hq).symm)]
  exact hn.absent raw' (List.mem_cons_of_mem _ hraw') q hq

theorem eq_save_of_commit {h : TxHash} (hc : l.commit raw = .ok (h, l'))
    (hnew : ∀ p, Payload.decode raw = .ok p → l.tree.get? p.hash.bytes = none) :
    ∃ p, Payload.decode raw = .ok p ∧ l' = l.save ⟨p.hash, raw⟩ := by
  obtain ⟨p, hp, -, -, hend⟩ := exists_of_commit hc
  have hnone := payload?_of_find?_none (find?_of_get?_none (hnew p hp))
  rcases hend with ⟨-, hsave⟩ | ⟨s, hs, -, -⟩
  · exact ⟨p, hp, hsave⟩
  · exact nomatch hnone.symm.trans hs

theorem violations_le_of_replay {t' : Tally} (hr : l.replay t raws = (.ok t', l')) :
    t.violations ≤ t'.violations := by
  induction raws generalizing l t with
  | nil =>
    cases hr
    exact Nat.le_refl _
  | cons raw raws ih =>
    unfold replay at hr
    split at hr
    · have hle := ih hr
      exact hle
    · have hle := ih hr
      exact Nat.le_of_succ_le hle
    · exact nomatch hr

theorem get?_of_replay {t' : Tally} (hn : l.New raws) (hr : l.replay t raws = (.ok t', l'))
    (hv : t'.violations = t.violations) (k v : Bytes) :
    l'.tree.get? k = some v ↔ l.tree.get? k = some v ∨
      ∃ raw ∈ raws, ∃ p, Payload.decode raw = .ok p ∧ k = p.hash.bytes ∧
        v = StoredTx.format.write ⟨p.hash, raw⟩ := by
  induction raws generalizing l t with
  | nil =>
    cases hr
    simp only [List.not_mem_nil, false_and, exists_false, or_false]
  | cons raw raws ih =>
    unfold replay at hr
    split at hr
    · rename_i h l₁ hc
      obtain ⟨p, hp, rfl⟩ := eq_save_of_commit hc (hn.absent raw List.mem_cons_self)
      have hnone := hn.absent raw List.mem_cons_self p hp
      rw [ih (hn.save hp) hr hv, save, SortedMap.get?_insert]
      constructor
      · rintro (h | ⟨raw', hraw', hrow⟩)
        · split at h
          · cases h
            exact .inr ⟨raw, List.mem_cons_self, p, hp, ‹_›, rfl⟩
          · exact .inl h
        · exact .inr ⟨raw', List.mem_cons_of_mem _ hraw', hrow⟩
      · rintro (h | ⟨raw', hraw', q, hq, rfl, rfl⟩)
        · rw [if_neg fun he => ?_]
          · exact .inl h
          · rw [he, hnone] at h
            cases h
        · rcases List.mem_cons.1 hraw' with rfl | hraw'
          · cases hp.symm.trans hq
            exact .inl (if_pos rfl)
          · exact .inr ⟨raw', hraw', q, hq, rfl, rfl⟩
    · have hle : t.violations + 1 ≤ t'.violations := violations_le_of_replay hr
      omega
    · cases hr

end Ledger

end TxRecovery
