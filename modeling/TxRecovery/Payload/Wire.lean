import TxRecovery.Payload.Basic
import TxRecovery.Wire.Format

/-!
# The binary form of payloads
-/

namespace TxRecovery

def PublicKey.format : Format PublicKey :=
  (Format.block 32).convert PublicKey.block PublicKey.mk

def TxHash.format : Format TxHash := Format.bytes.convert TxHash.bytes TxHash.mk

def SecurityHash.format : Format SecurityHash :=
  Format.bytes.convert SecurityHash.bytes SecurityHash.mk

def PrivacyMode.format : Format PrivacyMode := Format.variant PrivacyMode.all

def affectedFormat : Format (SortedMap TxHash SecurityHash) :=
  Format.sortedMap TxHash.format SecurityHash.format

namespace Payload

open Format in
/-- The fields in order, one after the other. -/
def format : Format Payload :=
  (PublicKey.format.pair <| bytes.pair <| (block 12).pair <| (list bytes).pair <|
    (block 12).pair <| (list PublicKey.format).pair <| PrivacyMode.format.pair <|
    affectedFormat.pair bytes).convert
    (fun p => (p.sender, p.ciphertext, p.cipherNonce, p.boxes, p.boxNonce, p.recipients, p.mode,
      p.affected, p.execHash))
    (fun (sender, ciphertext, cipherNonce, boxes, boxNonce, recipients, mode, affected, execHash) =>
      { sender, ciphertext, cipherNonce, boxes, boxNonce, recipients, mode, affected, execHash })

def encode (p : Payload) : Bytes := format.write p

/-- Bytes after the payload are ignored. -/
def decode (raw : Bytes) : Except PayloadError Payload :=
  (format.decode raw).mapError fun f => .decode f.message

end Payload

end TxRecovery
