import TxRecovery.Proofs.Staging.Area

/-!
# Views upserted one after the other

`Area.upsertViews`: each view under its hash and its view key, with its binary form as the version. Over rows that read
back, and that have room for that many versions more, no upsert fails, and what is there in the end reads back again
(`Holds.upsertViews`).
-/

namespace TxRecovery

namespace Staging

variable {a : Area} {c : Contents} {row : Row} {v : Payload} {views : List Payload}

/-- Upserts views in order; one that fails ends it. -/
def Area.upsertViews (a : Area) (views : List Payload) : Except DbError Area :=
  views.foldlM (fun a v =>
    (a.upsert v.hash ⟨v.sender, .ofList v.recipients⟩ ⟨v.encode, v.mode, v.affected⟩).map Prod.snd) a

theorem Area.upsertViews_cons (a : Area) (v : Payload) (views : List Payload) :
    a.upsertViews (v :: views) =
      ((a.upsert v.hash (.ofPayload v) (.ofPayload v.encode v)).map Prod.snd).bind fun a' => a'.upsertViews views :=
  List.foldlM_cons

theorem Row.fits_empty (v : Payload) : (Row.empty v.hash).Fits :=
  ⟨v.length_hash_lt, (by decide : 0 < UInt64.size), nofun, nofun, nofun⟩

theorem Row.size_merge_le (row : Row) (k : ViewKey) (w : Version) :
    (row.merge k w).versions.size ≤ row.versions.size + 1 := SortedMap.length_insertEntry_le _ _ _

theorem Row.Fits.merge (hr : row.Fits) (hsize : row.versions.size + 1 < UInt64.size) (hv : v.Fits)
    (hlen : v.encode.length < UInt64.size) : (row.merge (.ofPayload v) (.ofPayload v.encode v)).Fits := by
  refine ⟨hr.hash, Nat.lt_of_le_of_lt (row.size_merge_le _ _) hsize, fun e he => ?_, nofun, nofun⟩
  rcases SortedMap.mem_insertEntry he with rfl | he
  · exact ⟨Nat.lt_of_le_of_lt (SortedSet.length_ofList_le _) hv.recipients, hlen, hv.affected⟩
  · exact hr.version e he

/-- No row is so full that it could not take that many versions more. -/
def Contents.RoomFor (c : Contents) (count : Nat) : Prop :=
  count < UInt64.size ∧ ∀ h row, c.get? h = some row → row.versions.size + count < UInt64.size

/-- So is the row that a view is merged into, be it new. -/
theorem Contents.RoomFor.target {count : Nat} (hroom : c.RoomFor count) (h : TxHash) :
    ((c.get? h).getD (.empty h)).versions.size + count < UInt64.size := by
  cases hr : c.get? h with
  | none =>
    show 0 + count < _
    rw [Nat.zero_add]
    exact hroom.1
  | some row => exact hroom.2 _ _ hr

/-- A view merged in takes the room of one version. -/
theorem Contents.RoomFor.insert {count : Nat} (hroom : c.RoomFor (count + 1)) (raw : Bytes) (v : Payload) :
    Contents.RoomFor (c.insert v.hash (c.merged raw v)) count := by
  refine ⟨Nat.lt_of_succ_lt hroom.1, fun h row hr => ?_⟩
  rw [SortedMap.get?_insert] at hr
  split at hr
  · cases hr
    have htarget := hroom.target v.hash
    have hsize := ((c.get? v.hash).getD (.empty v.hash)).size_merge_le (.ofPayload v) (.ofPayload raw v)
    rw [Contents.merged]
    omega
  · have := hroom.2 h row hr
    omega

/-- With room for it, a view is merged into a row that reads back. -/
theorem Area.Holds.put_merged (ha : a.Holds c) {count : Nat} (hroom : c.RoomFor (count + 1))
    (hv : v.encode.length < UInt64.size) :
    (a.put v.hash.bytes (c.merged v.encode v)).Holds (c.insert v.hash (c.merged v.encode v)) := by
  have hsize := hroom.target v.hash
  have htarget : ((c.get? v.hash).getD (.empty v.hash)).hash = v.hash ∧
      ((c.get? v.hash).getD (.empty v.hash)).Fits := by
    cases hr : c.get? v.hash with
    | none => exact ⟨rfl, Row.fits_empty v⟩
    | some row => exact ⟨ha.keyed _ _ hr, ha.fits _ _ hr⟩
  exact ha.put htarget.1 (htarget.2.merge (by omega) (Payload.fits_of_length_lt hv) hv)

theorem Area.Holds.upsertViews (ha : a.Holds c) (hroom : c.RoomFor views.length)
    (hviews : ∀ v ∈ views, v.encode.length < UInt64.size) : ∃ a' c', a.upsertViews views = .ok a' ∧ a'.Holds c' := by
  induction views generalizing a c with
  | nil => exact ⟨a, c, rfl, ha⟩
  | cons v views ih =>
    obtain ⟨hv, hviews⟩ := List.forall_mem_cons.1 hviews
    obtain ⟨a', c', hrest, hc'⟩ := ih (ha.put_merged hroom hv) (hroom.insert v.encode v) hviews
    refine ⟨a', c', ?_, hc'⟩
    rw [Area.upsertViews_cons, ha.upsert]
    exact hrest

/-- An area that a process can hold has room for whatever half of the addresses can count. -/
theorem Area.Holds.roomFor (ha : a.Holds c) (hfit : FitsInMemory a.tree) {count : Nat} (hcount : count < addressable) :
    c.RoomFor count := by
  have hwords : addressable + addressable ≤ UInt64.size := by decide
  refine ⟨by omega, fun h row hr => ?_⟩
  have hstored : a.tree.get? h.bytes = some (Row.format.write row) := by
    rw [ha.get?, hr]
    rfl
  have hlen := hfit.length_lt hstored
  have := row.rawBytes_add_size_le
  omega

end Staging

end TxRecovery
