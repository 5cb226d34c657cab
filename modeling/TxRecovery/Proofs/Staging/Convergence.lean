import Mathlib.Data.List.TakeWhile
import TxRecovery.Proofs.Staging.Contents

/-!
# Staging forgets its past

Stages and issues are computed from versions alone: a pass over the rows without them comes to the same
(`Contents.restage_bare`), so it may be repeated (`Contents.restage_restage`) and what earlier passes left does not
matter. What a push leaves of versions is, for every view of a transaction, the last payload that was pushed of it
(`Contents.version?_push`). So rows that come from pushes to nothing are told by these (`Contents.push_empty_congr`).
-/

namespace TxRecovery

namespace Staging

variable {row : Row} {raw : Bytes} {raws raws' : List Bytes} {p : Payload} {h : TxHash} {k : ViewKey}

/-- Stages depend on the hashes of the rows and on what they depend on. -/
theorem stages_map {f : Row → Row} (hhash : ∀ row, (f row).hash = row.hash)
    (hdeps : ∀ row, (f row).dependencies = row.dependencies) (rows : List Row) :
    stages (rows.map f) = stages rows := by
  have hready : ∀ s, ready (rows.map f) s = (ready rows s).map f := by
    intro s
    simp only [ready, List.filter_map, Function.comp_def, hhash, hdeps]
  have hstage : ∀ round (rs : List Row) s, stageAll round (rs.map f) s = stageAll round rs s := by
    intro round rs s
    simp only [stageAll, List.foldl_map, hhash]
  unfold stages
  generalize 1 = round
  generalize (SortedMap.empty : Stages) = s
  induction round, s using stagesFrom.induct rows with
  | case1 round s he =>
    rw [stagesFrom, stagesFrom, hready, he]
    rfl
  | case2 round s r rs he ih =>
    have hall := hstage round (r :: rs) s
    rw [List.map_cons] at hall
    rw [stagesFrom, stagesFrom, hready, he, List.map_cons]
    simp only [hall, ih]

/-- The row as a push leaves it, without stage and issues. -/
def Row.bare (row : Row) : Row := { row with stage := none, issues := none }

/-! ### The last payload of a view -/

/-- The bytes are a payload of the transaction `h`, from the sender and for the recipients of `k`. -/
def isViewOf (h : TxHash) (k : ViewKey) (raw : Bytes) : Bool :=
  match Payload.decode raw with
  | .ok p => decide (p.hash = h ∧ .ofPayload p = k)
  | .error _ => false

theorem isViewOf_iff (hp : Payload.decode raw = .ok p) :
    isViewOf h k raw = true ↔ p.hash = h ∧ .ofPayload p = k := by
  simp only [isViewOf, hp, decide_eq_true_iff]

def lastPushed (raws : List Bytes) (h : TxHash) (k : ViewKey) : Option Bytes := (raws.filter (isViewOf h k)).getLast?

theorem lastPushed_cons (raw : Bytes) (raws : List Bytes) (h : TxHash) (k : ViewKey) :
    lastPushed (raw :: raws) h k = (lastPushed raws h k).or (if isViewOf h k raw then some raw else none) := by
  unfold lastPushed
  rw [List.filter_cons]
  split
  · rw [List.getLast?_cons]
    cases (raws.filter (isViewOf h k)).getLast? <;> rfl
  · rw [Option.or_none]

def Version.ofRaw? (raw : Bytes) : Option Version := (Payload.decode raw).toOption.map (.ofPayload raw)

theorem Version.ofRaw?_eq (hp : Payload.decode raw = .ok p) : ofRaw? raw = some (.ofPayload raw p) := by
  rw [ofRaw?, hp]
  rfl

theorem exists_ofRaw? (hl : lastPushed raws h k = some raw) : ∃ v, Version.ofRaw? raw = some v := by
  have hview := (List.mem_filter.1 (List.mem_of_getLast? hl)).2
  cases hp : Payload.decode raw with
  | error e => simp only [isViewOf, hp, Bool.false_eq_true] at hview
  | ok p => exact ⟨_, Version.ofRaw?_eq hp⟩

/-- What a push takes in: it ends with the first payload that does not read. -/
def readable (raws : List Bytes) : List Bytes := raws.takeWhile fun raw => (Payload.decode raw).isOk

theorem exists_of_mem_readable (hraw : raw ∈ readable raws) : ∃ p, Payload.decode raw = .ok p := by
  have hok := List.mem_takeWhile_imp hraw
  cases hp : Payload.decode raw with
  | error e =>
    rw [hp] at hok
    exact nomatch hok
  | ok p => exact ⟨p, rfl⟩

namespace Contents

variable {c c' : Contents}

theorem push_readable (c : Contents) (raws : List Bytes) : c.push (readable raws) = c.push raws := by
  induction raws generalizing c with
  | nil => rfl
  | cons raw raws ih =>
    cases hp : Payload.decode raw with
    | error e =>
      have hnil : readable (raw :: raws) = [] := by rw [readable, List.takeWhile_cons, hp]; rfl
      rw [hnil, push_cons_error hp]
      rfl
    | ok p =>
      have hcons : readable (raw :: raws) = raw :: readable raws := by rw [readable, List.takeWhile_cons, hp]; rfl
      rw [hcons, push_cons_ok hp, push_cons_ok hp, ih]

theorem push_append (hd : ∀ raw ∈ raws, ∃ p, Payload.decode raw = .ok p) (c : Contents) (raws' : List Bytes) :
    c.push (raws ++ raws') = (c.push raws).push raws' := by
  induction raws generalizing c with
  | nil => rfl
  | cons raw raws ih =>
    obtain ⟨⟨p, hp⟩, hds⟩ := List.forall_mem_cons.1 hd
    rw [List.cons_append, push_cons_ok hp, push_cons_ok hp, ih hds]

def version? (c : Contents) (h : TxHash) (k : ViewKey) : Option Version := (c.get? h).bind fun row => row.versions.get? k

theorem version?_insert_merged (c : Contents) (raw : Bytes) (p : Payload) (h : TxHash) (k : ViewKey) :
    version? (c.insert p.hash (c.merged raw p)) h k =
      if p.hash = h ∧ .ofPayload p = k then some (.ofPayload raw p) else c.version? h k := by
  unfold version?
  rw [SortedMap.get?_insert]
  by_cases hh : h = p.hash
  · subst hh
    have hversions : (c.merged raw p).versions =
        ((c.get? p.hash).getD (.empty p.hash)).versions.insert (.ofPayload p) (.ofPayload raw p) := rfl
    rw [if_pos rfl, Option.bind_some, hversions, SortedMap.get?_insert]
    by_cases hk : k = .ofPayload p
    · rw [if_pos hk, if_pos ⟨rfl, hk.symm⟩]
    · rw [if_neg hk, if_neg fun h => hk h.2.symm]
      cases c.get? p.hash <;> rfl
  · rw [if_neg hh, if_neg fun h => hh h.1.symm]

/-- The last payload of a view is kept, and otherwise what was there. -/
theorem version?_push (hd : ∀ raw ∈ raws, ∃ p, Payload.decode raw = .ok p) (c : Contents) (h : TxHash) (k : ViewKey) :
    (c.push raws).version? h k = ((lastPushed raws h k).bind Version.ofRaw?).or (c.version? h k) := by
  induction raws generalizing c with
  | nil => rfl
  | cons raw raws ih =>
    obtain ⟨⟨p, hp⟩, hds⟩ := List.forall_mem_cons.1 hd
    rw [push_cons_ok hp, ih hds, version?_insert_merged, lastPushed_cons]
    cases hl : lastPushed raws h k with
    | some raw' =>
      obtain ⟨v, hv⟩ := exists_ofRaw? hl
      simp only [Option.some_or, Option.bind_some, hv]
    | none =>
      by_cases hview : p.hash = h ∧ .ofPayload p = k
      · rw [if_pos hview, if_pos ((isViewOf_iff hp).2 hview), Option.none_or, Option.bind_some, Version.ofRaw?_eq hp]
        rfl
      · rw [if_neg hview, if_neg fun hv => hview ((isViewOf_iff hp).1 hv)]
        rfl

/-! ### Rows without stages -/

def bare (c : Contents) : Contents := c.mapValues fun _ => Row.bare

theorem get?_bare (c : Contents) (h : TxHash) : c.bare.get? h = (c.get? h).map Row.bare :=
  SortedMap.get?_mapValues _ c h

theorem values_bare (c : Contents) : c.bare.values = c.values.map Row.bare := by
  simp only [bare, SortedMap.values, SortedMap.mapValues, List.map_map]
  rfl

/-- What earlier passes noted of the rows does not matter to a pass. -/
theorem restage_bare (c : Contents) : c.bare.restage = c.restage := by
  refine SortedMap.ext_get? fun h => ?_
  have hstages : stages c.bare.values = stages c.values := by
    rw [values_bare, stages_map (f := Row.bare) (fun _ => rfl) fun _ => rfl]
  rw [get?_restage, get?_restage, get?_bare, hstages, Option.map_map]
  rfl

theorem bare_restage (c : Contents) : c.restage.bare = c.bare := by
  refine SortedMap.ext_get? fun h => ?_
  rw [get?_bare, get?_bare, get?_restage, Option.map_map]
  rfl

theorem restage_congr (hb : c.bare = c'.bare) : c.restage = c'.restage := by
  rw [← restage_bare, hb, restage_bare]

theorem restage_restage (c : Contents) : c.restage.restage = c.restage := restage_congr c.bare_restage

theorem stageable_congr (h : c.restage = c'.restage) : c.stageable = c'.stageable := by rw [stageable, stageable, h]

theorem bare_insert_merged (c : Contents) (raw : Bytes) (p : Payload) :
    bare (c.insert p.hash (c.merged raw p)) = c.bare.insert p.hash (c.bare.merged raw p) := by
  have hmerged : c.bare.merged raw p = (c.merged raw p).bare := by
    unfold merged
    rw [get?_bare]
    cases c.get? p.hash <;> rfl
  refine SortedMap.ext_get? fun h => ?_
  rw [get?_bare, SortedMap.get?_insert, SortedMap.get?_insert, hmerged, get?_bare]
  split <;> rfl

theorem bare_push (c : Contents) (raws : List Bytes) : (c.push raws).bare = c.bare.push raws := by
  induction raws generalizing c with
  | nil => rfl
  | cons raw raws ih =>
    cases hp : Payload.decode raw with
    | error e => rw [push_cons_error hp, push_cons_error hp]
    | ok p => rw [push_cons_ok hp, push_cons_ok hp, ih, bare_insert_merged]

theorem Faithful.push (hc : c.Faithful) (raws : List Bytes) : (c.push raws).Faithful := by
  induction raws generalizing c with
  | nil => exact hc
  | cons raw raws ih =>
    cases hp : Payload.decode raw with
    | error e => exact (push_cons_error hp raws).symm ▸ hc
    | ok p => exact (push_cons_ok hp raws).symm ▸ ih (hc.insert_merged hp)

/-- Rows without stages are told by their versions. -/
theorem eq_of_version? (hc : c.Faithful) (hc' : c'.Faithful) (hb : c.bare = c) (hb' : c'.bare = c')
    (hv : ∀ h k, c.version? h k = c'.version? h k) : c = c' := by
  -- a row of one has some version, so the other one has a row there too
  have hsome : ∀ {c c' : Contents} {h row}, c.Faithful → (∀ k, c.version? h k = c'.version? h k) →
      c.get? h = some row → ∃ row', c'.get? h = some row' := by
    intro c c' h row hc hv hr
    have hne := (hc.row row (SortedMap.mem_values_iff.2 ⟨h, hr⟩)).versions_ne
    obtain ⟨e, es, he⟩ := List.exists_cons_of_ne_nil hne
    have hget : row.versions.get? e.1 = some e.2 := SortedMap.get?_eq_some_iff.2 (he ▸ List.mem_cons_self)
    have hve := hv e.1
    rw [version?, hr, Option.bind_some, hget] at hve
    obtain ⟨row', hr', -⟩ := Option.bind_eq_some_iff.1 hve.symm
    exact ⟨row', hr'⟩
  have hbare : ∀ {c : Contents} {h row}, c.bare = c → c.get? h = some row → row.bare = row := by
    intro c h row hb hr
    have := hr
    rw [← hb, get?_bare, hr] at this
    exact Option.some.inj this
  refine SortedMap.ext_get? fun h => ?_
  cases hr : c.get? h with
  | none =>
    cases hr' : c'.get? h with
    | none => rfl
    | some row' =>
      obtain ⟨row, hrow⟩ := hsome hc' (fun k => (hv h k).symm) hr'
      exact nomatch hr.symm.trans hrow
  | some row =>
    obtain ⟨row', hr'⟩ := hsome hc (hv h) hr
    have hversions : row.versions = row'.versions := by
      refine SortedMap.ext_get? fun k => ?_
      have hk := hv h k
      rwa [version?, version?, hr, hr'] at hk
    have hhash : row.hash = row'.hash := (hc.keyed h row hr).trans (hc'.keyed h row' hr').symm
    rw [hr', ← hbare hb hr, ← hbare hb' hr', Row.bare, Row.bare, hversions, hhash]

/-- Whatever the order of the payloads: what counts is the last of each view. -/
theorem push_empty_congr (hd : ∀ raw ∈ raws, ∃ p, Payload.decode raw = .ok p)
    (hd' : ∀ raw ∈ raws', ∃ p, Payload.decode raw = .ok p)
    (hlast : ∀ h k, lastPushed raws h k = lastPushed raws' h k) : push .empty raws = push .empty raws' := by
  have hempty : ∀ raws, (push .empty raws).bare = push .empty raws := fun raws => bare_push .empty raws
  refine eq_of_version? (faithful_empty.push raws) (faithful_empty.push raws') (hempty raws) (hempty raws') fun h k => ?_
  rw [version?_push hd, version?_push hd', hlast]

end Contents

end Staging

end TxRecovery
