import TxRecovery.Payload.Basic

/-!
# Views of a payload

What one party is given of a payload. `forRecipient` narrows it to a single recipient's key and box;
`withRecipient` names the key that a keyless view was sealed for. Both leave every other field
alone.
-/

namespace TxRecovery

namespace Payload

def forRecipient (p : Payload) (k : PublicKey) : Except PayloadError Payload :=
  match p.boxOf? k with
  | some box => .ok { p with recipients := [k], boxes := [box] }
  | none => .error (.recipientNotFound k)

def withRecipient (p : Payload) (k : PublicKey) : Payload :=
  if p.hasRecipient k then p else { p with recipients := p.recipients ++ [k] }

end Payload

end TxRecovery
