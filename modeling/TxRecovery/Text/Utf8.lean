import TxRecovery.Bytes

/-!
# UTF-8

`Utf8.encode` writes a text, `Utf8.decode` reads one and says where the first fault is: after which
valid prefix, and how many bytes of a sequence were wrong, or that the sequence was cut short.
-/

namespace TxRecovery

namespace Utf8

def encodeChars (cs : List Char) : Bytes := cs.flatMap String.utf8EncodeChar

def encode (s : String) : Bytes := encodeChars s.toList

structure Fault where
  /-- Length of the longest valid prefix. -/
  validUpTo : Nat
  /-- How many bytes cannot go on or start a character; `none` if the text ends too early. -/
  wrong : Option Nat
deriving DecidableEq

def Fault.message (f : Fault) : String :=
  match f.wrong with
  | some n => s!"invalid utf-8 sequence of {n} bytes from index {f.validUpTo}"
  | none => s!"incomplete utf-8 byte sequence from index {f.validUpTo}"

def isContinuation (b : UInt8) : Bool := decide (0x80 ≤ b) && decide (b ≤ 0xBF)

/-- The second bytes that may follow a first byte `a` of a longer sequence. -/
def secondRange (a : UInt8) : UInt8 × UInt8 :=
  if a = 0xE0 then (0xA0, 0xBF)
  else if a = 0xED then (0x80, 0x9F)
  else if a = 0xF0 then (0x90, 0xBF)
  else if a = 0xF4 then (0x80, 0x8F)
  else (0x80, 0xBF)

def isSecond (a b : UInt8) : Bool :=
  decide ((secondRange a).1 ≤ b) && decide (b ≤ (secondRange a).2)

/-- How many bytes a sequence that starts with `a` has; zero if none starts so. -/
def width (a : UInt8) : Nat :=
  if a < 0x80 then 1
  else if a < 0xC2 then 0
  else if a < 0xE0 then 2
  else if a < 0xF0 then 3
  else if a < 0xF5 then 4
  else 0

/-- The code point of a sequence, given the payload bits of its first byte and the bytes that
follow. -/
def codePoint (lead : Nat) (rest : Bytes) : Char :=
  Char.ofNat (rest.foldl (fun n b => n * 64 + b.toNat % 64) lead)

/-- Reads one character at offset `offset`, or names the fault there. -/
def decodeOne (offset : Nat) (a : UInt8) (rest : Bytes) : Except Fault (Char × Nat) :=
  let cut : Except Fault (Char × Nat) := .error ⟨offset, none⟩
  let bad (n : Nat) : Except Fault (Char × Nat) := .error ⟨offset, some n⟩
  match width a, rest with
  | 1, _ => .ok (Char.ofNat a.toNat, 0)
  | 2, [] => cut
  | 2, b :: _ => if isSecond a b then .ok (codePoint (a.toNat % 32) [b], 1) else bad 1
  | 3, [] => cut
  | 3, b :: r =>
    if !isSecond a b then bad 1 else
    match r with
    | [] => cut
    | c :: _ => if isContinuation c then .ok (codePoint (a.toNat % 16) [b, c], 2) else bad 2
  | 4, [] => cut
  | 4, b :: r =>
    if !isSecond a b then bad 1 else
    match r with
    | [] => cut
    | c :: r =>
      if !isContinuation c then bad 2 else
      match r with
      | [] => cut
      | d :: _ => if isContinuation d then .ok (codePoint (a.toNat % 8) [b, c, d], 3) else bad 3
  | _, _ => bad 1

def decodeFrom (offset : Nat) : Bytes → Except Fault (List Char)
  | [] => .ok []
  | a :: rest =>
    match decodeOne offset a rest with
    | .error f => .error f
    | .ok (c, n) => (decodeFrom (offset + n + 1) (rest.drop n)).map (c :: ·)
termination_by bs => bs.length
decreasing_by simp only [List.length_drop, List.length_cons]; omega

def decode (bs : Bytes) : Except Fault String := (decodeFrom 0 bs).map String.ofList

end Utf8

end TxRecovery
