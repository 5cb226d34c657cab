import TxRecovery.Proofs.Payload.Canonical
import TxRecovery.Proofs.Staging.Row

/-!
# What is stored reads back, and only whole

Rows of the staging area and of the ledger end by themselves on disk: they read back whatever bytes follow,
and cut short they do not read (`stored_delimited`). All that is asked of a row is that its lengths, counts
and its stage fit in 64 bits (`Row.LengthsFit`); a note of it is any text.
-/

namespace TxRecovery

theorem PublicKey.format_local : PublicKey.format.Local := PublicKey.format_lawful.local PublicKey.format_exact

theorem TxHash.format_local : TxHash.format.Local := TxHash.format_lawful.local TxHash.format_exact

theorem affectedFormat_local : affectedFormat.Local :=
  TxHash.format_local.sortedMap (SecurityHash.format_lawful.local SecurityHash.format_exact)

theorem StoredTx.format_local : StoredTx.format.Local :=
  (TxHash.format_local.pair (Format.bytes_lawful.local Format.bytes_exact)).convert _ _

/-- The value reads back whatever is stored after it, and nothing shorter than all of it reads. -/
def StoredDelimited {α : Type} (f : Format α) (a : α) : Prop :=
  (∀ tail, decodeStored f (f.write a ++ tail) = .ok a) ∧
    ∀ cut, cut <+: f.write a → cut ≠ f.write a → ∃ detail, decodeStored f cut = .error (.serialization detail)

theorem Format.Lawful.storedDelimited {α : Type} {f : Format α} {P : α → Prop} {a : α} (hf : f.Lawful P)
    (hl : f.Local) (ha : P a) : StoredDelimited f a := by
  constructor
  · intro tail
    rw [decodeStored_eq_ok, Format.decode, hf a ha tail]
    rfl
  · intro cut hcut hne
    obtain ⟨e, he⟩ := hf.exists_read_eq_error hl ha hcut hne
    refine ⟨e.message, ?_⟩
    rw [decodeStored, Format.decode, he]
    rfl

namespace Staging

theorem ViewKey.format_local : ViewKey.format.Local :=
  (PublicKey.format_local.pair PublicKey.format_local.sortedSet).convert _ _

theorem Version.format_local : Version.format.Local :=
  ((Format.bytes_lawful.local Format.bytes_exact).pair <|
    (PrivacyMode.format_lawful.local PrivacyMode.format_exact).pair affectedFormat_local).convert _ _

namespace Row

theorem format_local : Row.format.Local :=
  (TxHash.format_local.pair <| (ViewKey.format_local.sortedMap Version.format_local).pair <|
    (Format.uint_local 8).option.pair Format.text_local.option).convert _ _

/-- Lengths and counts of the row, and its stage, fit in 64 bits. -/
structure LengthsFit (row : Row) : Prop where
  hash : row.hash.bytes.length < UInt64.size
  versions : row.versions.size < UInt64.size
  version : ∀ e ∈ row.versions.entries, e.1.recipients.toList.length < UInt64.size ∧
    e.2.raw.length < UInt64.size ∧ AffectedFits e.2.affected
  stage : ∀ n ∈ row.stage, n < UInt64.size
  issues : ∀ s ∈ row.issues, (Utf8.encode s).length < UInt64.size

theorem LengthsFit.fits {row : Row} (h : row.LengthsFit) : row.Fits :=
  ⟨h.hash, h.versions, h.version, h.stage, fun s hs => ⟨h.issues s hs, Utf8.decode_encode s⟩⟩

/-- A staged row of two versions, with a note whose characters take one to four bytes. -/
def sample : Row where
  hash := ⟨[7]⟩
  versions := .ofList [(⟨⟨.replicate 32 2⟩, .ofList [⟨.replicate 32 3⟩, ⟨.replicate 32 1⟩]⟩,
    ⟨[1, 2, 3], .partyProtection, .ofList [(⟨[9]⟩, ⟨[90]⟩), (⟨[8]⟩, ⟨[80]⟩)]⟩),
    (⟨⟨.replicate 32 2⟩, .empty⟩, ⟨[], .standard, .empty⟩)]
  stage := some 3
  issues := some "a é ✓ 𝔸"

theorem lengthsFit_sample : sample.LengthsFit := by
  refine ⟨by decide, by decide, ?_, by decide, by decide⟩
  unfold AffectedFits
  decide

end Row

/-- Rows of the staging area and of the ledger, whatever they hold. -/
theorem stored_delimited : (∀ row : Row, row.LengthsFit → StoredDelimited Row.format row) ∧
    ∀ t : StoredTx, t.hash.bytes.length < UInt64.size → t.raw.length < UInt64.size →
      StoredDelimited StoredTx.format t := by
  constructor
  · intro row hrow
    exact Row.format_lawful.storedDelimited Row.format_local hrow.fits
  · intro t hhash hraw
    exact StoredTx.format_lawful.storedDelimited StoredTx.format_local ⟨hhash, hraw⟩

theorem sample_stored_delimited : Row.sample.LengthsFit ∧ StoredDelimited Row.format Row.sample ∧
    StoredDelimited StoredTx.format ⟨⟨[7]⟩, [1, 2, 3]⟩ :=
  ⟨Row.lengthsFit_sample, stored_delimited.1 _ Row.lengthsFit_sample,
    stored_delimited.2 _ (by decide) (by decide)⟩

end Staging

end TxRecovery
