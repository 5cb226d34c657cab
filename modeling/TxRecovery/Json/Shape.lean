import TxRecovery.Bytes
import TxRecovery.Json.Tree
import TxRecovery.Text.Quoted

/-!
# Reading values out of JSON

A `Reading` takes a tree of the expected shape, or names the first fault in text order and where it
is. A record is read from an object, whose fields may stand in any order, or from an array that
lists them; fields that it does not know are passed over unless the record is closed. A choice is
read from its name, or from an object with its name for the only key and null for the value.
-/

namespace TxRecovery

namespace Json

/-- What stands where something else was expected. -/
inductive Found where
  | null
  | bool (b : Bool)
  | integer (n : Int)
  | float (text : String)
  | string (s : String)
  | sequence
  | map
deriving DecidableEq

def Found.message : Found → String
  | null => "null"
  | bool b => s!"boolean `{b}`"
  | integer n => s!"integer `{n}`"
  | float t => s!"floating point `{t}`"
  | string s => "string " ++ Text.quoteString s
  | sequence => "sequence"
  | map => "map"

inductive Mismatch where
  | invalidType (found : Found) (expected : String)
  | invalidValue (found : Found) (expected : String)
  | invalidLength (length : Nat) (expected : String)
  | missingField (name : String)
  | duplicateField (name : String)
  | unknownField (name : String) (known : List String)
  | unknownVariant (name : String) (known : List String)
deriving DecidableEq

/-- The names that would have been right. -/
def expectedNames (known : List String) : String :=
  match known with
  | [a] => s!"`{a}`"
  | [a, b] => s!"`{a}` or `{b}`"
  | names => "one of " ++ ", ".intercalate (names.map fun n => s!"`{n}`")

def Mismatch.message : Mismatch → String
  | invalidType f e => s!"invalid type: {f.message}, expected {e}"
  | invalidValue f e => s!"invalid value: {f.message}, expected {e}"
  | invalidLength n e => s!"invalid length {n}, expected {e}"
  | missingField n => s!"missing field `{n}`"
  | duplicateField n => s!"duplicate field `{n}`"
  | unknownField n known => s!"unknown field `{n}`, expected {expectedNames known}"
  | unknownVariant n known => s!"unknown variant `{n}`, expected {expectedNames known}"

inductive Step where
  | field (name : String)
  | index (i : Nat)
deriving DecidableEq

inductive Fault where
  | malformed (flaw : Flaw)
  | mismatch (path : List Step) (cause : Mismatch)
deriving DecidableEq

def Fault.message : Fault → String
  | malformed flaw => flaw.message
  | mismatch _ cause => cause.message

/-- A path as messages show it: names with points between, indices in brackets. -/
def pathText (path : List Step) : String :=
  path.foldl (fun text step =>
    match step with
    | .field name => if text.isEmpty then name else text ++ "." ++ name
    | .index i => text ++ s!"[{i}]") ""

abbrev Reading (α : Type) := Tree → Except Fault α

/-- Places the faults of a reading one step down. -/
def within {α : Type} (step : Step) : Except Fault α → Except Fault α
  | .ok a => .ok a
  | .error (.malformed f) => .error (.malformed f)
  | .error (.mismatch path cause) => .error (.mismatch (step :: path) cause)

def mismatch {α : Type} (cause : Mismatch) : Except Fault α := .error (.mismatch [] cause)

def malformed {α : Type} (flaw : Flaw) : Except Fault α := .error (.malformed flaw)

/-- Refuses what comes with a flaw. -/
def flawless : Option Flaw → Except Fault Unit
  | none => .ok ()
  | some f => malformed f

namespace Tree

def found : Tree → Except Fault Found
  | .null => .ok .null
  | .bool b => .ok (.bool b)
  | .number n =>
    match n.value? with
    | none => malformed .hugeNumber
    | some (.whole i) => .ok (.integer i)
    | some (.float x) => .ok (.float (Number.layout.writeFloat x))
  | .string (.error f) => malformed f
  | .string (.ok s) => .ok (.string s)
  | .array _ _ => .ok .sequence
  | .object _ _ | .nameless _ => .ok .map
  | .broken f => malformed f

def wrongType {α : Type} (expected : String) (t : Tree) : Except Fault α := do
  mismatch (.invalidType (← t.found) expected)

mutual

/-- Passes over a value that nobody looks at, which must be well formed. -/
def skip : Tree → Except Fault Unit
  | .array items ending => do
    skipItems items
    flawless ending
  | .object fields ending => do
    skipFields fields
    flawless ending
  | .nameless _ => malformed .expectedName
  | .broken f => malformed f
  | _ => .ok ()

def skipItems : List Tree → Except Fault Unit
  | [] => .ok ()
  | t :: ts => do
    skip t
    skipItems ts

def skipFields : List (Except Flaw String × Tree) → Except Fault Unit
  | [] => .ok ()
  | (_, t) :: fs => do
    skip t
    skipFields fs

end

mutual

/-- Keeps a value for a later reading: it must be well formed, every number and string of it must
have a value, and it may nest at most `depth` deep. -/
def keep : (depth : Nat) → Tree → Except Fault Unit
  | 0, .array _ _ | 0, .object _ _ | 0, .nameless _ => malformed .tooDeep
  | depth + 1, .array items ending => do
    keepItems depth items
    flawless ending
  | depth + 1, .object fields ending => do
    keepFields depth fields
    flawless ending
  | _ + 1, .nameless _ => malformed .expectedName
  | _, .number n => if n.value?.isSome then .ok () else malformed .hugeNumber
  | _, .string (.error f) => malformed f
  | _, .broken f => malformed f
  | _, _ => .ok ()

def keepItems : (depth : Nat) → List Tree → Except Fault Unit
  | _, [] => .ok ()
  | depth, t :: ts => do
    keep depth t
    keepItems depth ts

def keepFields : (depth : Nat) → List (Except Flaw String × Tree) → Except Fault Unit
  | _, [] => .ok ()
  | _, (.error f, _) :: _ => malformed f
  | depth, (.ok _, t) :: fs => do
    keep depth t
    keepFields depth fs

end

end Tree

namespace Reading

def bool : Reading Bool
  | .bool b => .ok b
  | t => t.wrongType "a boolean"

/-- A whole number up to `bound`; messages call its type `name`. -/
def unsigned (name : String) (bound : Nat) : Reading Nat
  | .number n => do
    match ← (Tree.number n).found with
    | .integer i =>
      if 0 ≤ i ∧ i ≤ bound then .ok i.toNat else mismatch (.invalidValue (.integer i) name)
    | f => mismatch (.invalidType f name)
  | t => t.wrongType name

def byte : Reading UInt8 := fun t => (unsigned "u8" 255 t).map UInt8.ofNat

def u32 : Reading Nat := unsigned "u32" (UInt32.size - 1)

def u64 : Reading Nat := unsigned "u64" (UInt64.size - 1)

def string : Reading String
  | .string (.ok s) => .ok s
  | t => t.wrongType "a string"

def nullable {α : Type} (r : Reading α) : Reading (Option α)
  | .null => .ok none
  | t => (r t).map some

/-- Reads items in order, the first of them at index `i`. -/
def items {α : Type} (r : Reading α) : (i : Nat) → List Tree → Except Fault (List α)
  | _, [] => .ok []
  | i, t :: ts => do
    let a ← within (.index i) (r t)
    let as ← items r (i + 1) ts
    .ok (a :: as)

def list {α : Type} (r : Reading α) : Reading (List α)
  | .array ts ending => do
    let as ← items r 0 ts
    flawless ending
    .ok as
  | t => t.wrongType "a sequence"

/-- An array of exactly `n` bytes; items beyond those are not read. -/
def block (n : Nat) : Reading (Block n)
  | .array ts ending => do
    let bs ← items byte 0 (ts.take n)
    match Block.ofBytes? n bs with
    | some b =>
      if n < ts.length then malformed .trailingText
      else do
        flawless (ending.map Flaw.behindLast)
        .ok b
    | none =>
      flawless ending
      mismatch (.invalidLength bs.length s!"an array of length {n}")
  | t => t.wrongType s!"an array of length {n}"

/-- Finds a choice by its name. -/
def named {α : Type} (all : List α) (name : α → String) (s : String) : Except Fault α :=
  match all.find? fun a => name a == s with
  | some a => .ok a
  | none => mismatch (.unknownVariant s (all.map name))

def unit : Reading Unit
  | .null => .ok ()
  | t => t.wrongType "unit"

def variant {α : Type} (all : List α) (name : α → String) : Reading α
  | .string (.ok s) => named all name s
  | .string (.error f) | .broken f => malformed f
  | .object ((.ok key, value) :: rest) ending => do
    let a ← named all name key
    unit value
    match rest, ending with
    | [], none => .ok a
    | [], some .endInObject => malformed .endInObject
    | _, _ => malformed .expectedValue
  | .object ((.error f, _) :: _) _ => malformed f
  | .object [] ending => malformed (ending.getD .expectedValue)
  | .nameless t => t.wrongType "variant identifier"
  | _ => malformed .expectedValue

end Reading

/-- A field of a record under construction. -/
structure Field (α : Type) where
  name : String
  /-- Whether an object may leave it out. -/
  optional : Bool
  read : Reading (α → α)

def Field.required {α β : Type} (name : String) (r : Reading β) (set : β → α → α) : Field α :=
  ⟨name, false, fun t => (r t).map set⟩

def Field.nullable {α β : Type} (name : String) (r : Reading β) (set : Option β → α → α) :
    Field α :=
  ⟨name, true, fun t => (Reading.nullable r t).map set⟩

structure Record (α : Type) where
  title : String
  fields : List (Field α)
  /-- The record before anything is read. -/
  blank : α
  /-- Whether fields that it does not know are refused. -/
  closed : Bool
  /-- Whether every field may be left out, also at the end of an array. -/
  defaults : Bool

namespace Record

variable {α : Type}

def lengthText (r : Record α) : String :=
  let n := r.fields.length
  r.title ++ (if n = 1 then " with 1 element" else s!" with {n} elements")

/-- The record once all fields were seen that it needs. -/
def finish (r : Record α) (seen : List String) (a : α) : Except Fault α :=
  match r.fields.find? fun f => !(f.optional || r.defaults) && !seen.contains f.name with
  | some f => mismatch (.missingField f.name)
  | none => .ok a

def ofFields (r : Record α) (seen : List String) (a : α) :
    List (Except Flaw String × Tree) → (ending : Option Flaw) → Except Fault α
  | [], none => r.finish seen a
  | [], some f => malformed f
  | (.error f, _) :: _, _ => malformed f
  | (.ok name, value) :: rest, ending =>
    match r.fields.find? fun f => f.name == name with
    | none =>
      if r.closed then mismatch (.unknownField name (r.fields.map Field.name))
      else do
        value.skip
        ofFields r seen a rest ending
    | some f =>
      if seen.contains name then mismatch (.duplicateField name)
      else do
        let set ← within (.field name) (f.read value)
        ofFields r (name :: seen) (set a) rest ending

/-- Reads fields from items by place; answers also with the items left over. -/
def ofItems (r : Record α) : (i : Nat) → List (Field α) → α → List Tree → (ending : Option Flaw) →
    Except Fault (α × List Tree)
  | _, [], a, rest, _ => .ok (a, rest)
  | _, _ :: _, _, [], some f => malformed f
  | i, _ :: _, a, [], none =>
    if r.defaults then .ok (a, []) else mismatch (.invalidLength i r.lengthText)
  | i, f :: fs, a, t :: ts, ending => do
    let set ← within (.index i) (f.read t)
    ofItems r (i + 1) fs (set a) ts ending

def read (r : Record α) : Reading α
  | .object fields ending => r.ofFields [] r.blank fields ending
  | .nameless _ => malformed .expectedName
  | .array items ending => do
    let (a, rest) ← r.ofItems 0 r.fields r.blank items ending
    if rest.isEmpty then do
      flawless (ending.map Flaw.behindLast)
      .ok a
    else malformed .trailingText
  | t => t.wrongType r.title

end Record

/-- Reads a text that holds one value and nothing else. -/
def parse {α : Type} (r : Reading α) (s : String) : Except Fault α := do
  let (tree, rest) := Tree.parse s
  let a ← r tree
  if (skipBlanks rest).isEmpty then .ok a else malformed .trailingText

/-- Reads the value a text starts with, whatever follows. -/
def parseFirst {α : Type} (r : Reading α) (s : String) : Except Fault α := r (Tree.parse s).1

end Json

end TxRecovery
