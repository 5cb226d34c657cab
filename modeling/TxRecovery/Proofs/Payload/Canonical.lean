import TxRecovery.Proofs.Payload.Codec
import TxRecovery.Proofs.Wire.Local

/-!
# Which bytes are the binary form of a payload

The binary form says where it ends. It reads back whatever follows, and cut short it does not read
(`decode_delimited`). The reader accepts more than the writer makes, namely every listing that fits
(`read_eq_ok_iff`). Of the listings that stand for one payload the binary form is the shortest, and the
only one whose hashes ascend (`decode_canonical`).
-/

namespace TxRecovery

namespace Payload

variable {p : Payload} {raw rest : Bytes}

/-! ### Where the binary form ends -/

theorem decode_eq_ok_iff : decode raw = .ok p ↔ ∃ rest, Payload.format.read raw = .ok (p, rest) := by
  rw [decode_eq_ok]
  constructor
  · intro h
    exact Format.read_of_decode h
  · rintro ⟨rest, h⟩
    rw [Format.decode, h]
    rfl

theorem decode_eq_error {e : Wire.Fault} (h : Payload.format.read raw = .error e) :
    decode raw = .error (.decode e.message) := by
  rw [decode, Format.decode, h]
  rfl

theorem read_encode_append (hp : p.Fits) (rest : Bytes) : Payload.format.read (p.encode ++ rest) = .ok (p, rest) :=
  format_lawful p hp rest

theorem format_local : Payload.format.Local := by
  rw [format_eq]
  exact (Listing.format_lawful.local Listing.format_exact).convert listing Listing.payload

/-- The binary form is read to its end and no further, and nothing shorter of it is read. -/
theorem decode_delimited (hp : p.Fits) :
    (∀ rest, Payload.format.read (p.encode ++ rest) = .ok (p, rest) ∧ decode (p.encode ++ rest) = .ok p) ∧
      ∀ cut, cut <+: p.encode → cut ≠ p.encode → ∃ detail, decode cut = .error (.decode detail) := by
  constructor
  · intro rest
    have h := read_encode_append hp rest
    exact ⟨h, decode_eq_ok_iff.2 ⟨rest, h⟩⟩
  · intro cut hcut hne
    obtain ⟨e, he⟩ := format_lawful.exists_read_eq_error format_local hp hcut hne
    exact ⟨e.message, decode_eq_error he⟩

/-- A payload for two parties that affects two transactions. -/
def sample : Payload where
  sender := ⟨.replicate 32 9⟩
  ciphertext := [1, 2, 3]
  cipherNonce := default
  boxes := [[11], [12, 13]]
  boxNonce := default
  recipients := [⟨.replicate 32 4⟩, ⟨.replicate 32 5⟩]
  mode := .partyProtection
  affected := .ofList [(⟨[7]⟩, ⟨[70]⟩), (⟨[6]⟩, ⟨[60]⟩)]
  execHash := [8]

theorem fits_sample : sample.Fits :=
  ⟨by decide, by decide, by decide, by decide, ⟨by decide, by decide⟩, by decide⟩

theorem sample_delimited : sample.Fits ∧ (∀ rest, Payload.format.read (sample.encode ++ rest) = .ok (sample, rest) ∧
    decode (sample.encode ++ rest) = .ok sample) ∧
      ∀ cut, cut <+: sample.encode → cut ≠ sample.encode → ∃ detail, decode cut = .error (.decode detail) :=
  ⟨fits_sample, decode_delimited fits_sample⟩

/-! ### What the reader accepts -/

namespace Listing

variable {x : Listing}

theorem read_append (hx : x.Fits) (rest : Bytes) : Listing.format.read (x.encode ++ rest) = .ok (x, rest) :=
  format_lawful x hx rest

theorem length_encode_payload_eq_iff :
    x.payload.encode.length = x.encode.length ↔ (x.affected.map Prod.fst).Nodup := by
  rw [← SortedMap.sum_ofList_eq_iff entryBytes_pos]
  have := x.length_encode_payload
  omega

theorem listing_payload_eq_iff : x.payload.listing = x ↔ Ascending Prod.fst x.affected := by
  rw [← SortedMap.entries_ofList_eq_iff]
  constructor
  · intro h
    exact congrArg Listing.affected h
  · intro h
    simp only [listing, payload, h]

theorem encode_payload_eq_iff (hx : x.Fits) : x.payload.encode = x.encode ↔ Ascending Prod.fst x.affected := by
  rw [← listing_payload_eq_iff]
  exact format_lawful.write_inj (fits_listing hx.payload) hx

end Listing

theorem read_eq_ok_iff : Payload.format.read raw = .ok (p, rest) ↔
    ∃ x : Listing, x.Fits ∧ raw = x.encode ++ rest ∧ x.payload = p := by
  rw [format_eq]
  constructor
  · intro h
    obtain ⟨x, hx, rfl⟩ := Format.convert_read_eq_ok h
    obtain ⟨hfits, hraw⟩ := Listing.format_exact raw x rest hx
    exact ⟨x, hfits, hraw, rfl⟩
  · rintro ⟨x, hfits, rfl, rfl⟩
    rw [Format.convert_read, Listing.read_append hfits]
    rfl

/-- What was read is a listing and `rest`. Writing the payload again puts the listing in order, each hash with
the value that was listed last. -/
theorem decode_canonical (h : decode raw = .ok p) : ∃ (x : Listing) (rest : Bytes),
    Payload.format.read raw = .ok (p, rest) ∧ Listing.format.read raw = .ok (x, rest) ∧ raw = x.encode ++ rest ∧
    x.payload = p ∧ p.encode.length ≤ x.encode.length ∧
    (p.encode.length = x.encode.length ↔ (x.affected.map Prod.fst).Nodup) ∧
    (p.encode = x.encode ↔ Ascending Prod.fst x.affected) ∧
    ∀ hash, p.affected.get? hash = x.affected.reverse.lookup hash := by
  obtain ⟨rest, hread⟩ := decode_eq_ok_iff.1 h
  obtain ⟨x, hx, rfl, rfl⟩ := read_eq_ok_iff.1 hread
  exact ⟨x, rest, hread, Listing.read_append hx rest, rfl, rfl, x.length_encode_payload_le,
    Listing.length_encode_payload_eq_iff, Listing.encode_payload_eq_iff hx, SortedMap.get?_ofList x.affected⟩

/-- The sample with one affected transaction listed twice, and in descending order. -/
def sampleListing : Listing :=
  { sample.listing with affected := [(⟨[7]⟩, ⟨[71]⟩), (⟨[7]⟩, ⟨[70]⟩), (⟨[6]⟩, ⟨[60]⟩)] }

theorem decode_sampleListing : decode (sampleListing.encode ++ [0]) = .ok sample := by
  refine decode_eq_ok_iff.2 ⟨[0], read_eq_ok_iff.2 ⟨sampleListing, ?_, rfl, rfl⟩⟩
  exact ⟨by decide, by decide, by decide, by decide, by decide, by decide, by decide⟩

theorem sampleListing_canonical : ∃ (x : Listing) (rest : Bytes),
    Payload.format.read (sampleListing.encode ++ [0]) = .ok (sample, rest) ∧
    Listing.format.read (sampleListing.encode ++ [0]) = .ok (x, rest) ∧
    sampleListing.encode ++ [0] = x.encode ++ rest ∧ x.payload = sample ∧ sample.encode.length ≤ x.encode.length ∧
    (sample.encode.length = x.encode.length ↔ (x.affected.map Prod.fst).Nodup) ∧
    (sample.encode = x.encode ↔ Ascending Prod.fst x.affected) ∧
    ∀ hash, sample.affected.get? hash = x.affected.reverse.lookup hash :=
  decode_canonical decode_sampleListing

end Payload

end TxRecovery
