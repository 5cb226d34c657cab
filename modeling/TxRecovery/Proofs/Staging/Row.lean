import TxRecovery.Proofs.Ledger.Lookup
import TxRecovery.Proofs.Text.Utf8
import TxRecovery.Staging.Area

/-!
# Rows read back and keep what was pushed

`Row.Faithful`: every version of the row is a payload of the row's transaction, kept under its own view
key. Merging a payload keeps that (`Faithful.merge`), and so does restaging, which changes stage and
issues alone. `Row.Fits`: lengths and counts fit in the row's binary form, so that it reads back.
`Row.Reported`: the note on the row names what its versions disagree on (`reported_of_issues`).
-/

namespace TxRecovery

namespace Staging

theorem ViewKey.format_lawful :
    ViewKey.format.Lawful fun k => k.recipients.toList.length < UInt64.size :=
  (PublicKey.format_lawful.pair PublicKey.format_lawful.sortedSet).convert.mono fun _ h =>
    ⟨⟨trivial, h, fun _ _ => trivial⟩, rfl⟩

theorem Version.format_lawful :
    Version.format.Lawful fun v => v.raw.length < UInt64.size ∧ AffectedFits v.affected :=
  (Format.bytes_lawful.pair <| PrivacyMode.format_lawful.pair affectedFormat_lawful).convert.mono
    fun _ h => ⟨⟨h.1, trivial, h.2⟩, rfl⟩

/-- What is noted of a row fits in its binary form and reads back. -/
def TextFits (s : String) : Prop :=
  (Utf8.encode s).length < UInt64.size ∧ Utf8.decode (Utf8.encode s) = .ok s

namespace Row

variable {row : Row} {k : ViewKey} {v : Version}

structure Fits (row : Row) : Prop where
  hash : row.hash.bytes.length < UInt64.size
  versions : row.versions.size < UInt64.size
  version : ∀ e ∈ row.versions.entries, e.1.recipients.toList.length < UInt64.size ∧
    e.2.raw.length < UInt64.size ∧ AffectedFits e.2.affected
  stage : ∀ n ∈ row.stage, n < UInt64.size
  issues : ∀ s ∈ row.issues, TextFits s

theorem format_lawful : Row.format.Lawful Fits :=
  (TxHash.format_lawful.pair <| (ViewKey.format_lawful.sortedMap Version.format_lawful).pair <|
    (Format.uint_lawful 8).option.pair Format.text_lawful.option).convert.mono fun _ h =>
      ⟨⟨h.hash, ⟨h.versions, h.version⟩, h.stage, h.issues⟩, rfl⟩

theorem length_version_le (e : ViewKey × Version) :
    e.2.raw.length + 1 ≤ ((ViewKey.format.pair Version.format).write e).length := by
  have hv : e.2.raw.length ≤ (Version.format.write e.2).length := by
    show _ ≤ ((_ ++ e.2.raw) ++ _ : Bytes).length
    simp only [List.length_append]
    omega
  have hk : 32 ≤ (ViewKey.format.write e.1).length := by
    show _ ≤ (e.1.sender.bytes ++ _ : Bytes).length
    rw [List.length_append, e.1.sender.length_bytes]
    exact Nat.le_add_right _ _
  simp only [Format.pair, List.length_append]
  omega

/-- The payloads of a row, in version order. -/
def raws (row : Row) : List Bytes := row.versions.values.map Version.raw

def rawBytes (row : Row) : Nat := (row.raws.map List.length).sum

theorem rawBytes_add_size_le (row : Row) :
    row.rawBytes + row.versions.size ≤ (Row.format.write row).length := by
  have hsum : ∀ es : List (ViewKey × Version),
      (((es.map Prod.snd).map Version.raw).map List.length).sum + es.length ≤
        (es.map fun e => ((ViewKey.format.pair Version.format).write e).length).sum := by
    intro es
    induction es with
    | nil => simp
    | cons e es ih =>
      have := length_version_le e
      simp only [List.map_cons, List.sum_cons, List.length_cons] at ih ⊢
      omega
  have hlist := Format.length_write_list (ViewKey.format.pair Version.format) row.versions.entries
  have := hsum row.versions.entries
  show _ ≤ (_ ++ ((Format.list _).write row.versions.entries ++ _) : Bytes).length
  simp only [List.length_append, rawBytes, raws, SortedMap.values, SortedMap.size] at this hlist ⊢
  omega

theorem length_raw_le_rawBytes (hv : v ∈ row.versions.values) : v.raw.length ≤ row.rawBytes :=
  List.le_sum_of_mem (List.mem_map_of_mem (List.mem_map_of_mem hv))

/-! ### Versions -/

/-- The version is the payload `p`, under its own view key. -/
structure IsView (h : TxHash) (k : ViewKey) (v : Version) (p : Payload) : Prop where
  decode : Payload.decode v.raw = .ok p
  hash : p.hash = h
  key : k = .ofPayload p
  version : v = .ofPayload v.raw p

structure Faithful (row : Row) : Prop where
  versions_ne : row.versions.entries ≠ []
  view : ∀ e ∈ row.versions.entries, ∃ p, IsView row.hash e.1 e.2 p

theorem IsView.mode {h : TxHash} {p : Payload} (hv : IsView h k v p) : v.mode = p.mode := by
  rw [hv.version]
  rfl

theorem IsView.affected {h : TxHash} {p : Payload} (hv : IsView h k v p) : v.affected = p.affected := by
  rw [hv.version]
  rfl

theorem Faithful.of_mem_values (hr : row.Faithful) (hv : v ∈ row.versions.values) :
    ∃ k p, IsView row.hash k v p := by
  obtain ⟨e, he, rfl⟩ := List.mem_map.1 hv
  obtain ⟨p, hp⟩ := hr.view e he
  exact ⟨e.1, p, hp⟩

theorem Faithful.exists_version (hr : row.Faithful) : ∃ v, v ∈ row.versions.values := by
  obtain ⟨e, es, he⟩ := List.exists_cons_of_ne_nil hr.versions_ne
  exact ⟨e.2, List.mem_map.2 ⟨e, he ▸ List.mem_cons_self, rfl⟩⟩

theorem faithful_merge {raw : Bytes} {p : Payload} (hp : Payload.decode raw = .ok p)
    (hh : p.hash = row.hash) (hr : ∀ e ∈ row.versions.entries, ∃ p, IsView row.hash e.1 e.2 p) :
    (row.merge (.ofPayload p) (.ofPayload raw p)).Faithful := by
  refine ⟨SortedMap.insertEntry_ne_nil _ _ _, fun e he => ?_⟩
  rcases SortedMap.mem_insertEntry he with rfl | he
  · exact ⟨p, hp, hh, rfl, rfl⟩
  · exact hr e he

theorem Faithful.fits (hr : row.Faithful) (hv : row.versions.size < UInt64.size)
    (hraw : ∀ v ∈ row.versions.values, v.raw.length < UInt64.size)
    (hs : ∀ n ∈ row.stage, n < UInt64.size) (hi : ∀ s ∈ row.issues, TextFits s) : row.Fits := by
  refine ⟨?_, hv, fun e he => ?_, hs, hi⟩
  · obtain ⟨v, hv⟩ := hr.exists_version
    obtain ⟨k, p, hp⟩ := hr.of_mem_values hv
    exact hp.hash ▸ p.length_hash_lt
  · obtain ⟨p, hp⟩ := hr.view e he
    have hfit := Payload.fits_of_decode hp.decode
    refine ⟨?_, hraw e.2 (List.mem_map.2 ⟨e, he, rfl⟩), hp.affected ▸ hfit.affected⟩
    rw [hp.key]
    exact Nat.lt_of_le_of_lt (SortedSet.length_ofList_le _) hfit.recipients

theorem Faithful.of_mem_raws {raw : Bytes} (hr : row.Faithful) (h : raw ∈ row.raws) :
    ∃ p, Payload.decode raw = .ok p ∧ p.hash = row.hash := by
  obtain ⟨v, hv, rfl⟩ := List.mem_map.1 h
  obtain ⟨k, p, hp⟩ := hr.of_mem_values hv
  exact ⟨p, hp.decode, hp.hash⟩

theorem mem_dependencies {h : TxHash} : h ∈ row.dependencies ↔
    (∃ v ∈ row.versions.values, h ∈ v.affected.keys) ∧ h ≠ row.hash := by
  unfold Row.dependencies
  rw [SortedSet.mem_ofList, List.mem_filter, List.mem_flatMap, decide_eq_true_iff]

/-! ### Restaging -/

/-- The row with the stage and the issues that a staging pass finds. -/
def restage (stages : Stages) (row : Row) : Row :=
  { row with stage := stages.get? row.hash, issues := row.detectIssues }

theorem restaged?_eq (stages : Stages) (row : Row) :
    Area.restaged? stages row = if row.restage stages = row then none else some (row.restage stages) := by
  have h : row.restage stages = row ↔
      row.stage = stages.get? row.hash ∧ row.issues = row.detectIssues := by
    cases row
    simp only [restage, Row.mk.injEq, true_and]
    constructor <;> rintro ⟨h1, h2⟩ <;> exact ⟨h1.symm, h2.symm⟩
  unfold Area.restaged?
  simp only [← h]
  split <;> rfl

/-- Some two versions disagree on this. -/
def Disagree (row : Row) : Disagreement → Prop
  | .affected => ∃ v ∈ row.versions.values, ∃ w ∈ row.versions.values, v.affected ≠ w.affected
  | .mode => ∃ v ∈ row.versions.values, ∃ w ∈ row.versions.values, v.mode ≠ w.mode

theorem mem_disagreements {d : Disagreement} : d ∈ row.disagreements ↔ row.Disagree d := by
  unfold disagreements
  cases hvs : row.versions.values with
  | nil => cases d <;> simp [Disagree, hvs]
  | cons first rest =>
    have hany : ∀ (p : Prop) [Decidable p] (k : Disagreement), d ∈ (if p then [k] else []) ↔ p ∧ d = k := by
      intro p _ k
      split <;> simp [*]
    simp only [List.mem_append, hany, List.any_eq_true, decide_eq_true_iff]
    cases d with
    | affected => simp only [exists_ne_head_iff Version.affected, Disagree, hvs]; simp
    | mode => simp only [exists_ne_head_iff Version.mode, Disagree, hvs]; simp

theorem disagreements_cases (row : Row) :
    row.disagreements = [] ∨ row.disagreements = [.affected] ∨ row.disagreements = [.mode] ∨
      row.disagreements = [.affected, .mode] := by
  unfold disagreements
  split
  · exact .inl rfl
  · split <;> split <;> simp

theorem disagreements_sublist (row : Row) : row.disagreements.Sublist [.affected, .mode] := by
  rcases row.disagreements_cases with h | h | h | h <;> rw [h] <;> decide

/-- What is noted of the row is what its versions disagree on: nothing, or the message of each such point. -/
structure Reported (row : Row) : Prop where
  none_iff : row.issues = none ↔
    ∀ v ∈ row.versions.values, ∀ w ∈ row.versions.values, v.mode = w.mode ∧ v.affected = w.affected
  names : ∃ points : List Disagreement, points.Sublist [.affected, .mode] ∧ (∀ d, d ∈ points ↔ row.Disagree d) ∧
    row.issues = if points = [] then none else some ("; ".intercalate (points.map Disagreement.message))

theorem detectIssues_eq (row : Row) : row.detectIssues =
    if row.disagreements = [] then none
    else some ("; ".intercalate (row.disagreements.map Disagreement.message)) := by
  unfold detectIssues
  split
  · rw [if_pos ‹_›]
  · rw [if_neg ‹_›]

theorem reported_of_issues (h : row.issues = row.detectIssues) : row.Reported := by
  refine ⟨?_, row.disagreements, row.disagreements_sublist, fun _ => mem_disagreements, h.trans row.detectIssues_eq⟩
  have hnone : row.issues = none ↔ ∀ d, ¬ row.Disagree d := by
    rw [h, detectIssues_eq]
    simp only [ite_eq_left_iff, reduceCtorEq, imp_false, not_not, List.eq_nil_iff_forall_not_mem, mem_disagreements]
  rw [hnone]
  constructor
  · intro hnone v hv w hw
    constructor
    · by_contra hne
      exact hnone .mode ⟨v, hv, w, hw, hne⟩
    · by_contra hne
      exact hnone .affected ⟨v, hv, w, hw, hne⟩
  · rintro hagree (_ | _) ⟨v, hv, w, hw, hne⟩
    · exact hne (hagree v hv w hw).2
    · exact hne (hagree v hv w hw).1

theorem textFits_detectIssues (row : Row) : ∀ s ∈ row.detectIssues, TextFits s := by
  intro s hs
  refine ⟨?_, Utf8.decode_encode s⟩
  unfold detectIssues at hs
  rcases row.disagreements_cases with h | h | h | h <;> rw [h] at hs
  · exact nomatch hs
  all_goals
    cases hs
    decide

theorem Fits.restage {stages : Stages} (hr : row.Fits)
    (hs : ∀ n, stages.get? row.hash = some n → n < UInt64.size) : (row.restage stages).Fits :=
  ⟨hr.hash, hr.versions, hr.version, hs, row.textFits_detectIssues⟩

end Row

end Staging

end TxRecovery
