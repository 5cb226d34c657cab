import TxRecovery.SortedMap
import TxRecovery.Text.Utf8

/-!
# Binary formats

A `Format` pairs the writer of a type with its reader; formats of composite types are built from
those of their parts, so the two cannot drift apart. Integers are little endian and of fixed width,
lengths and counts take eight bytes, the choice of a variant four, the tag of an option one. Every
written form says where it ends, and a reader hands back the bytes it did not need.
-/

namespace TxRecovery

namespace Wire

inductive Fault where
  | endOfInput
  | endOfText
  | unknownVariant (index bound : Nat)
  | optionTag (tag : Nat)
  | text (fault : Utf8.Fault)
deriving DecidableEq

def Fault.message : Fault → String
  | endOfInput => "io error: unexpected end of file"
  | endOfText => "io error: "
  | unknownVariant i n =>
    s!"invalid value: integer `{i}`, expected variant index 0 <= i < {n}"
  | optionTag t => s!"tag for enum is not valid, found {t}"
  | text f => "string is not valid utf8: " ++ f.message

abbrev Reader (α : Type) := Bytes → Except Fault (α × Bytes)

end Wire

open Wire (Fault Reader)

structure Format (α : Type) where
  write : α → Bytes
  read : Reader α

namespace Format

/-- Reads a value and forgets what follows it. -/
def decode {α : Type} (f : Format α) (bs : Bytes) : Except Fault α :=
  (f.read bs).map Prod.fst

def readExactly (fault : Fault) (n : Nat) : Reader Bytes := fun bs =>
  match Bytes.splitExactly? n bs with
  | some r => .ok r
  | none => .error fault

/-- An integer of `n` bytes. -/
def uint (n : Nat) : Format Nat where
  write := Bytes.littleEndian n
  read bs := do
    let (raw, rest) ← readExactly .endOfInput n bs
    .ok (Bytes.toNatLE raw, rest)

def block (n : Nat) : Format (Block n) where
  write := Block.toList
  read bs := do
    let (raw, rest) ← readExactly .endOfInput n bs
    match Block.ofBytes? n raw with
    | some b => .ok (b, rest)
    | none => .error .endOfInput

/-- A length and as many bytes. -/
def bytes : Format Bytes where
  write bs := (uint 8).write bs.length ++ bs
  read bs := do
    let (n, rest) ← (uint 8).read bs
    readExactly .endOfInput n rest

/-- A length and as many bytes of UTF-8. -/
def text : Format String where
  write s := bytes.write (Utf8.encode s)
  read bs := do
    let (n, rest) ← (uint 8).read bs
    let (raw, rest) ← readExactly .endOfText n rest
    match Utf8.decode raw with
    | .ok s => .ok (s, rest)
    | .error f => .error (.text f)

variable {α β : Type}

def pair (f : Format α) (g : Format β) : Format (α × β) where
  write x := f.write x.1 ++ g.write x.2
  read bs := do
    let (a, rest) ← f.read bs
    let (b, rest) ← g.read rest
    .ok ((a, b), rest)

/-- The format of a type that another one stands for. -/
def convert (f : Format α) (toWire : β → α) (ofWire : α → β) : Format β where
  write b := f.write (toWire b)
  read bs := do
    let (a, rest) ← f.read bs
    .ok (ofWire a, rest)

def readMany (f : Format α) : Nat → Reader (List α)
  | 0, bs => .ok ([], bs)
  | n + 1, bs => do
    let (a, rest) ← f.read bs
    let (as, rest) ← readMany f n rest
    .ok (a :: as, rest)

/-- A count and as many elements. -/
def list (f : Format α) : Format (List α) where
  write as := (uint 8).write as.length ++ as.flatMap f.write
  read bs := do
    let (n, rest) ← (uint 8).read bs
    readMany f n rest

def option (f : Format α) : Format (Option α) where
  write
    | none => [0]
    | some a => 1 :: f.write a
  read
    | [] => .error .endOfInput
    | tag :: rest =>
      if tag = 0 then .ok (none, rest)
      else if tag = 1 then do
        let (a, rest) ← f.read rest
        .ok (some a, rest)
      else .error (.optionTag tag.toNat)

/-- One of the variants listed, by its place in the list. -/
def variant [BEq α] (all : List α) : Format α where
  write a := (uint 4).write (all.idxOf a)
  read bs := do
    let (i, rest) ← (uint 4).read bs
    match all[i]? with
    | some a => .ok (a, rest)
    | none => .error (.unknownVariant i all.length)

/-- Written in key order; read in any order, the last of equal keys wins. -/
def sortedMap [Ord α] [Std.TransOrd α] [Std.LawfulEqOrd α] (f : Format α) (g : Format β) :
    Format (SortedMap α β) :=
  (list (pair f g)).convert SortedMap.entries SortedMap.ofList

def sortedSet [Ord α] [Std.TransOrd α] [Std.LawfulEqOrd α] (f : Format α) :
    Format (SortedSet α) :=
  (list f).convert SortedSet.toList SortedSet.ofList

end Format

end TxRecovery
