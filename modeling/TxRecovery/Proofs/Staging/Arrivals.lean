import TxRecovery.Proofs.Staging.Contents

/-!
# What arrives at an area that is all staged

A push that takes in a payload leaves a row without a stage (`AllStaged.push_eq`), and only a staging pass gives it one.
So if every row is staged after some arrivals, and no staging pass among them came upon a row without a stage, then
nothing was taken in, and every row was staged before (`AllStaged.of_calm`). Whatever arrives, a version that is there
afterwards was there before or was pushed (`mem_versions_arrive`).
-/

namespace TxRecovery

namespace Staging

/-- A request that works on the staging area alone. -/
inductive Arrival where
  | push (payloads : List Bytes)
  | stage

/-- The payloads that these push, whether they are accepted or refused. -/
def pushed (as : List Arrival) : List Bytes :=
  as.flatMap fun
    | .push payloads => payloads
    | .stage => []

namespace Contents

variable {c : Contents} {raw : Bytes} {raws : List Bytes} {p : Payload} {v : Version} {as : List Arrival}

def versions (c : Contents) : List Version := c.values.flatMap fun row => row.versions.values

theorem mem_versions : v ∈ c.versions ↔ ∃ row ∈ c.values, v ∈ row.versions.values := List.mem_flatMap

theorem versions_restage (c : Contents) : c.restage.versions = c.versions := by
  rw [versions, values_restage, List.flatMap_map]
  rfl

theorem mem_versions_insert_merged (hv : v ∈ versions (c.insert p.hash (c.merged raw p))) :
    v ∈ c.versions ∨ v.raw = raw := by
  obtain ⟨row, hrow, hv⟩ := mem_versions.1 hv
  obtain ⟨h, hget⟩ := SortedMap.mem_values_iff.1 hrow
  rw [SortedMap.get?_insert] at hget
  split at hget
  · cases hget
    obtain ⟨e, he, rfl⟩ := List.mem_map.1 hv
    rcases SortedMap.mem_insertEntry he with rfl | he
    · exact .inr rfl
    · cases hold : c.get? p.hash with
      | none =>
        rw [hold] at he
        exact absurd he List.not_mem_nil
      | some row =>
        rw [hold] at he
        exact .inl (mem_versions.2 ⟨row, SortedMap.mem_values_iff.2 ⟨_, hold⟩, List.mem_map.2 ⟨e, he, rfl⟩⟩)
  · exact .inl (mem_versions.2 ⟨row, SortedMap.mem_values_iff.2 ⟨h, hget⟩, hv⟩)

theorem mem_versions_push (hv : v ∈ (c.push raws).versions) : v ∈ c.versions ∨ v.raw ∈ raws := by
  induction raws generalizing c with
  | nil => exact .inl hv
  | cons raw raws ih =>
    cases hp : Payload.decode raw with
    | error e =>
      rw [push_cons_error hp] at hv
      exact .inl hv
    | ok p =>
      rw [push_cons_ok hp] at hv
      rcases ih hv with hv | hv
      · rcases mem_versions_insert_merged hv with hv | rfl
        · exact .inl hv
        · exact .inr List.mem_cons_self
      · exact .inr (List.mem_cons_of_mem _ hv)

/-! ### Rows with a stage -/

theorem AllStaged.mem_queue (hc : c.AllStaged) (hv : v ∈ c.versions) : v.raw ∈ c.queue := by
  obtain ⟨row, hrow, hv⟩ := mem_versions.1 hv
  exact Contents.mem_queue.2 ⟨row, hrow, Option.isSome_iff_exists.1 (hc row hrow), List.mem_map_of_mem hv⟩

/-- A payload that is taken in leaves its row without a stage. -/
theorem not_allStaged_insert_merged (c : Contents) (raw : Bytes) (p : Payload) :
    ¬ AllStaged (c.insert p.hash (c.merged raw p)) := by
  intro h
  have hrow : c.merged raw p ∈ SortedMap.values (c.insert p.hash (c.merged raw p)) :=
    SortedMap.mem_values_iff.2 ⟨p.hash, SortedMap.get?_insert_self _ _ _⟩
  exact nomatch h _ hrow

theorem AllStaged.push_eq (h : (c.push raws).AllStaged) : c.push raws = c := by
  induction raws generalizing c with
  | nil => rfl
  | cons raw raws ih =>
    cases hp : Payload.decode raw with
    | error e => exact push_cons_error hp raws
    | ok p =>
      rw [push_cons_ok hp] at h
      have hrest := ih h
      rw [hrest] at h
      exact absurd h (c.not_allStaged_insert_merged raw p)

/-! ### Arrivals -/

def arrive (c : Contents) : Arrival → Contents
  | .push payloads => c.push payloads
  | .stage => c.restage

theorem mem_versions_arrive (hv : v ∈ (as.foldl arrive c).versions) : v ∈ c.versions ∨ v.raw ∈ pushed as := by
  induction as generalizing c with
  | nil => exact .inl hv
  | cons a as ih =>
    have hcons : v.raw ∈ pushed as → v.raw ∈ pushed (a :: as) := List.mem_append_right _
    rcases ih hv with hv | hv
    · cases a with
      | push payloads =>
        rcases mem_versions_push hv with hv | hv
        · exact .inl hv
        · exact .inr (List.mem_append_left _ hv)
      | stage =>
        have hsame : v ∈ c.restage.versions := hv
        rw [versions_restage] at hsame
        exact .inl hsame
    · exact .inr (hcons hv)

/-- Arrivals that leave every row staged, none of which staged a row that was not, changed no version. -/
theorem AllStaged.of_calm (hcalm : ∀ pre post, as = pre ++ .stage :: post → (pre.foldl arrive c).AllStaged)
    (h : (as.foldl arrive c).AllStaged) : c.AllStaged ∧ (as.foldl arrive c).versions = c.versions := by
  induction as generalizing c with
  | nil => exact ⟨h, rfl⟩
  | cons a as ih =>
    have hrest : ∀ pre post, as = pre ++ .stage :: post → (pre.foldl arrive (c.arrive a)).AllStaged :=
      fun pre post hsplit => hcalm (a :: pre) post (congrArg (a :: ·) hsplit)
    obtain ⟨hfirst, hversions⟩ := ih hrest h
    rw [List.foldl_cons, hversions]
    cases a with
    | push payloads =>
      -- a push after which every row is staged took nothing in
      have hsame : c.arrive (.push payloads) = c := AllStaged.push_eq hfirst
      rw [hsame] at hfirst ⊢
      exact ⟨hfirst, rfl⟩
    | stage => exact ⟨hcalm [] as rfl, c.versions_restage⟩

end Contents

end Staging

end TxRecovery
