import TxRecovery.Payload.View
import TxRecovery.Payload.Wire
import TxRecovery.Proofs.Wire.Lawful

/-!
# The binary form of payloads reads back

`Payload.Fits`: every length and count of the payload fits in the eight bytes it is written in. Such a
payload reads back from its binary form (`decode_encode`). A payload that was read fits, and its
binary form is no longer than what it was read from (`length_encode_le`).

What the reader accepts need not list the affected transactions in order, nor each of them once. A `Listing`
is a payload as it is listed, entry by entry. Its format is lawful and exact, and a payload reads as what its
listing stands for (`format_eq`).
-/

namespace TxRecovery

theorem PublicKey.format_lawful : PublicKey.format.Lawful fun _ => True :=
  (Format.block_lawful 32).convert.mono fun _ _ => ⟨trivial, rfl⟩

theorem PublicKey.format_exact : PublicKey.format.Exact fun _ => True :=
  (Format.block_exact 32).convert (fun _ h => h) fun _ => rfl

theorem TxHash.format_lawful : TxHash.format.Lawful (·.bytes.length < UInt64.size) :=
  Format.bytes_lawful.convert.mono fun _ h => ⟨h, rfl⟩

theorem TxHash.format_exact : TxHash.format.Exact (·.bytes.length < UInt64.size) :=
  Format.bytes_exact.convert (fun _ h => h) fun _ => rfl

theorem SecurityHash.format_lawful : SecurityHash.format.Lawful (·.bytes.length < UInt64.size) :=
  Format.bytes_lawful.convert.mono fun _ h => ⟨h, rfl⟩

theorem SecurityHash.format_exact : SecurityHash.format.Exact (·.bytes.length < UInt64.size) :=
  Format.bytes_exact.convert (fun _ h => h) fun _ => rfl

theorem PrivacyMode.mem_all (m : PrivacyMode) : m ∈ PrivacyMode.all := by
  cases m <;> decide

theorem PrivacyMode.format_lawful : PrivacyMode.format.Lawful fun _ => True :=
  (Format.variant_lawful PrivacyMode.all (by decide)).mono fun m _ => m.mem_all

theorem PrivacyMode.format_exact : PrivacyMode.format.Exact fun _ => True :=
  (Format.variant_exact (by decide : PrivacyMode.all.Nodup)).mono fun _ _ => trivial

def AffectedFits (m : SortedMap TxHash SecurityHash) : Prop :=
  m.size < UInt64.size ∧
    ∀ e ∈ m.entries, e.1.bytes.length < UInt64.size ∧ e.2.bytes.length < UInt64.size

theorem affectedFormat_lawful : affectedFormat.Lawful AffectedFits :=
  TxHash.format_lawful.sortedMap SecurityHash.format_lawful

namespace Payload

structure Fits (p : Payload) : Prop where
  ciphertext : p.ciphertext.length < UInt64.size
  boxes : p.boxes.length < UInt64.size
  box : ∀ b ∈ p.boxes, b.length < UInt64.size
  recipients : p.recipients.length < UInt64.size
  affected : AffectedFits p.affected
  execHash : p.execHash.length < UInt64.size

/-- A payload whose affected transactions are listed in any order. -/
structure Listing where
  sender : PublicKey
  ciphertext : Bytes
  cipherNonce : Block 12
  boxes : List Bytes
  boxNonce : Block 12
  recipients : List PublicKey
  mode : PrivacyMode
  affected : List (TxHash × SecurityHash)
  execHash : Bytes

def listing (p : Payload) : Listing where
  sender := p.sender
  ciphertext := p.ciphertext
  cipherNonce := p.cipherNonce
  boxes := p.boxes
  boxNonce := p.boxNonce
  recipients := p.recipients
  mode := p.mode
  affected := p.affected.entries
  execHash := p.execHash

namespace Listing

def entryFormat : Format (TxHash × SecurityHash) := TxHash.format.pair SecurityHash.format

open Format in
def format : Format Listing :=
  (PublicKey.format.pair <| bytes.pair <| (block 12).pair <| (list bytes).pair <|
    (block 12).pair <| (list PublicKey.format).pair <| PrivacyMode.format.pair <|
    (list entryFormat).pair bytes).convert
    (fun x => (x.sender, x.ciphertext, x.cipherNonce, x.boxes, x.boxNonce, x.recipients, x.mode,
      x.affected, x.execHash))
    (fun (sender, ciphertext, cipherNonce, boxes, boxNonce, recipients, mode, affected, execHash) =>
      { sender, ciphertext, cipherNonce, boxes, boxNonce, recipients, mode, affected, execHash })

def encode (x : Listing) : Bytes := format.write x

/-- The payload that is listed. Of equal hashes the last one counts. -/
def payload (x : Listing) : Payload where
  sender := x.sender
  ciphertext := x.ciphertext
  cipherNonce := x.cipherNonce
  boxes := x.boxes
  boxNonce := x.boxNonce
  recipients := x.recipients
  mode := x.mode
  affected := .ofList x.affected
  execHash := x.execHash

structure Fits (x : Listing) : Prop where
  ciphertext : x.ciphertext.length < UInt64.size
  boxes : x.boxes.length < UInt64.size
  box : ∀ b ∈ x.boxes, b.length < UInt64.size
  recipients : x.recipients.length < UInt64.size
  affected : x.affected.length < UInt64.size
  entry : ∀ e ∈ x.affected, e.1.bytes.length < UInt64.size ∧ e.2.bytes.length < UInt64.size
  execHash : x.execHash.length < UInt64.size

theorem format_lawful : Listing.format.Lawful Fits :=
  (PublicKey.format_lawful.pair <| Format.bytes_lawful.pair <| (Format.block_lawful 12).pair <|
    Format.bytes_lawful.list.pair <| (Format.block_lawful 12).pair <|
    PublicKey.format_lawful.list.pair <| PrivacyMode.format_lawful.pair <|
    (TxHash.format_lawful.pair SecurityHash.format_lawful).list.pair Format.bytes_lawful).convert.mono fun _ h =>
      ⟨⟨trivial, h.ciphertext, trivial, ⟨h.boxes, h.box⟩, trivial, ⟨h.recipients, fun _ _ => trivial⟩,
        trivial, ⟨h.affected, h.entry⟩, h.execHash⟩, rfl⟩

theorem format_exact : Listing.format.Exact Fits :=
  (PublicKey.format_exact.pair <| Format.bytes_exact.pair <| (Format.block_exact 12).pair <|
    Format.bytes_exact.list.pair <| (Format.block_exact 12).pair <|
    PublicKey.format_exact.list.pair <| PrivacyMode.format_exact.pair <|
    (TxHash.format_exact.pair SecurityHash.format_exact).list.pair Format.bytes_exact).convert
      (fun _ ⟨_, hc, _, ⟨hb, hbs⟩, _, ⟨hr, _⟩, _, ⟨ha, has⟩, he⟩ => ⟨hc, hb, hbs, hr, ha, has, he⟩)
      fun _ => rfl

theorem payload_listing (p : Payload) : p.listing.payload = p := by
  simp only [payload, listing, SortedMap.ofList_entries]

theorem fits_listing {p : Payload} (h : p.Fits) : p.listing.Fits :=
  ⟨h.ciphertext, h.boxes, h.box, h.recipients, h.affected.1, h.affected.2, h.execHash⟩

theorem Fits.payload {x : Listing} (h : x.Fits) : x.payload.Fits :=
  ⟨h.ciphertext, h.boxes, h.box, h.recipients, ⟨Nat.lt_of_le_of_lt (SortedMap.length_ofList_le x.affected) h.affected,
    fun e he => h.entry e (SortedMap.mem_of_mem_ofList he)⟩, h.execHash⟩

/-- The bytes that an affected transaction takes. -/
def entryBytes (e : TxHash × SecurityHash) : Nat := (entryFormat.write e).length

theorem entryBytes_eq (e : TxHash × SecurityHash) : entryBytes e = 16 + e.1.bytes.length + e.2.bytes.length := by
  simp only [entryBytes, entryFormat, TxHash.format, SecurityHash.format, Format.pair, Format.convert,
    List.length_append, Format.length_write_bytes]
  omega

theorem entryBytes_pos (e : TxHash × SecurityHash) : 0 < entryBytes e := by
  rw [entryBytes_eq]
  omega

/-- Only what is listed as affected can differ. -/
theorem length_encode_payload (x : Listing) : x.payload.encode.length + (x.affected.map entryBytes).sum =
    x.encode.length + ((SortedMap.ofList x.affected).entries.map entryBytes).sum := by
  have hlist : ∀ es, ((Format.list entryFormat).write es).length = 8 + (es.map entryBytes).sum :=
    Format.length_write_list entryFormat
  have hnew := hlist (SortedMap.ofList x.affected).entries
  have hold := hlist x.affected
  show (x.payload.listing.encode).length + _ = _
  simp only [encode, format, listing, payload, Format.convert, Format.pair, List.length_append] at hnew hold ⊢
  omega

theorem length_encode_payload_le (x : Listing) : x.payload.encode.length ≤ x.encode.length := by
  have := x.length_encode_payload
  have := SortedMap.sum_ofList_le entryBytes x.affected
  omega

end Listing

theorem format_eq : Payload.format = Listing.format.convert listing Listing.payload := by
  simp only [Payload.format, Listing.format, Listing.entryFormat, affectedFormat, Format.sortedMap,
    Format.convert_pair, Format.pair_convert, Format.convert_convert]
  rfl

theorem format_lawful : Payload.format.Lawful Fits := by
  rw [format_eq]
  exact Listing.format_lawful.convert.mono fun p h => ⟨Listing.fits_listing h, Listing.payload_listing p⟩

theorem format_compact : Payload.format.Compact Fits := by
  rw [format_eq]
  exact Listing.format_exact.compact.convert (fun _ h => h.payload) Listing.length_encode_payload_le

theorem decode_eq_ok {raw : Bytes} {p : Payload} :
    decode raw = .ok p ↔ Payload.format.decode raw = .ok p := by
  unfold decode
  cases Payload.format.decode raw <;> simp [Except.mapError]

theorem decode_encode {p : Payload} (h : p.Fits) : decode p.encode = .ok p :=
  decode_eq_ok.2 (format_lawful.decode_write h)

variable {raw : Bytes} {p : Payload} {k : PublicKey}

theorem fits_of_decode (h : decode raw = .ok p) : p.Fits :=
  format_compact.fits_of_decode (decode_eq_ok.1 h)

theorem length_encode_le (h : decode raw = .ok p) : p.encode.length ≤ raw.length :=
  format_compact.length_write_le (decode_eq_ok.1 h)

/-- The bytes that the boxes take, each with its length. -/
def boxBytes (bs : List Bytes) : Nat := (bs.map fun b => 8 + b.length).sum

/-- The bytes that do not depend on who the payload is for. -/
def coreBytes (p : Payload) : Nat :=
  92 + p.ciphertext.length + (affectedFormat.write p.affected).length + p.execHash.length

theorem length_encode (p : Payload) :
    p.encode.length = p.coreBytes + boxBytes p.boxes + 32 * p.recipients.length := by
  have hk : ∀ k : PublicKey, (PublicKey.format.write k).length = 32 := fun k => k.length_bytes
  have hkeys : ((Format.list PublicKey.format).write p.recipients).length =
      8 + 32 * p.recipients.length := by
    rw [Format.length_write_list]
    simp only [hk, List.map_const', List.sum_replicate_nat]
    omega
  have hboxes : ((Format.list Format.bytes).write p.boxes).length = 8 + boxBytes p.boxes := by
    rw [Format.length_write_list, boxBytes]
    simp only [Format.length_write_bytes]
  have hmode : (PrivacyMode.format.write p.mode).length = 4 := Bytes.length_littleEndian 4 _
  have hblock : ∀ b : Block 12, ((Format.block 12).write b).length = 12 := fun b => b.length_toList
  show ((PublicKey.format.write p.sender ++ _) : Bytes).length = _
  simp only [Format.pair, List.length_append, hk, Format.length_write_bytes, hblock, hboxes, hkeys, hmode, coreBytes]
  omega

end Payload

end TxRecovery
