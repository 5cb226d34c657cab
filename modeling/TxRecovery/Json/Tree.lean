import TxRecovery.Json.Flaw
import TxRecovery.Json.Number

/-!
# JSON text

`Tree.parse` reads a text into a tree that also says where the text breaks off and by which flaw:
what is malformed becomes a `broken` leaf or a container with a flaw for its end, with all that stood
before it kept. A reader that walks the tree in text order so meets the first fault of the text,
whether it lies in the text or in its shape.

A string with an escaped half of a surrogate pair is no text, but harmless where it is passed over;
it is kept as a flaw. So is a number beyond the doubles, which is kept as its digits.
-/

namespace TxRecovery

namespace Json

inductive Tree where
  | null
  | bool (b : Bool)
  | number (n : Number)
  | string (s : Except Flaw String)
  /-- Without a flaw at its end it is closed. -/
  | array (items : List Tree) (ending : Option Flaw)
  | object (fields : List (Except Flaw String × Tree)) (ending : Option Flaw)
  /-- An object that starts with something else than the name of a field. -/
  | nameless (start : Tree)
  | broken (flaw : Flaw)

def isBlank (c : Char) : Bool := c = ' ' || c = '\n' || c = '\t' || c = '\r'

def skipBlanks (cs : List Char) : List Char := cs.dropWhile isBlank

def hexValue? (c : Char) : Option Nat :=
  if '0' ≤ c ∧ c ≤ '9' then some (c.toNat - 48)
  else if 'a' ≤ c ∧ c ≤ 'f' then some (c.toNat - 87)
  else if 'A' ≤ c ∧ c ≤ 'F' then some (c.toNat - 55)
  else none

def fourHex? (a b c d : Char) : Option Nat := do
  some (((← hexValue? a) * 16 + (← hexValue? b)) * 256 + (← hexValue? c) * 16 + (← hexValue? d))

/-- The character a one-letter escape stands for. -/
def shortEscape? (c : Char) : Option Char :=
  if c = '"' || c = '\\' || c = '/' then some c
  else if c = 'b' then some '\x08'
  else if c = 'f' then some '\x0c'
  else if c = 'n' then some '\n'
  else if c = 'r' then some '\r'
  else if c = 't' then some '\t'
  else none

def isHigh (u : Nat) : Bool := decide (0xD800 ≤ u) && decide (u < 0xDC00)

def isLow (u : Nat) : Bool := decide (0xDC00 ≤ u) && decide (u < 0xE000)

/-- The flaw of an escape that these characters are too few or too long for. Four bytes are looked
at. -/
def cutEscape (cs : List Char) : Flaw :=
  if (String.ofList cs).utf8ByteSize < 4 then .endInString else .badEscape

/-- Reads a string up to its closing quote: its text, and what follows the quote. `done` is the text
so far, back to front, `flaw` what it has that is no text, and `half` the first half of a surrogate
pair, if the second is due. -/
def scanString (done : List Char) (flaw : Option Flaw) (half : Option Nat) : List Char →
    Except Flaw (Except Flaw String × List Char)
  | [] => .error (flaw.getD .endInString)
  | '"' :: rest =>
    match flaw <|> half.map fun _ => .cutPair with
    | some f => .ok (.error f, rest)
    | none => .ok (.ok (String.ofList done.reverse), rest)
  | '\\' :: 'u' :: a :: b :: c :: d :: rest =>
    match fourHex? a b c d, half with
    | none, _ => .error (flaw.getD .badEscape)
    | some v, some u =>
      if isLow v then
        let c := Char.ofNat (0x10000 + (u - 0xD800) * 0x400 + (v - 0xDC00))
        scanString (c :: done) flaw none rest
      else scanString done (flaw <|> some .loneHalf) none rest
    | some u, none =>
      if isLow u then scanString done (flaw <|> some .loneHalf) none rest
      else if isHigh u then scanString done flaw (some u) rest
      else scanString (Char.ofNat u :: done) flaw none rest
  | '\\' :: 'u' :: cut => .error (flaw.getD (cutEscape cut))
  | ['\\'] => .error (flaw.getD .endInString)
  | '\\' :: c :: rest =>
    let flaw := flaw <|> half.map fun _ => .cutPair
    match shortEscape? c with
    | none => .error (flaw.getD .badEscape)
    | some c => scanString (c :: done) flaw none rest
  | c :: rest =>
    let flaw := flaw <|> half.map fun _ => .cutPair
    if c.toNat < 0x20 then .error (flaw.getD .controlCharacter)
    else scanString (c :: done) flaw none rest

def parseString (cs : List Char) : Except Flaw (Except Flaw String × List Char) :=
  scanString [] none none cs

/-- Reads the rest of a word. -/
def scanWord (value : Tree) : (word : List Char) → List Char → Tree × List Char
  | [], cs => (value, cs)
  | _ :: _, [] => (.broken .endInValue, [])
  | w :: ws, c :: cs => if w = c then scanWord value ws cs else (.broken .expectedWord, [])

def digitsOf (cs : List Char) : List Nat × List Char :=
  ((cs.takeWhile Char.isDigit).map fun c => c.toNat - 48, cs.dropWhile Char.isDigit)

/-- The flaw where a digit is missing in front of these characters. -/
def missingDigit : List Char → Flaw
  | [] => .endInValue
  | _ => .badNumber

/-- The digits before the point; only zero itself starts with a zero. -/
def scanWhole (cs : List Char) : Except Flaw (List Nat × List Char) :=
  match digitsOf cs with
  | ([], _) => .error (missingDigit cs)
  | (0 :: _ :: _, _) => .error .badNumber
  | r => .ok r

def scanFraction : List Char → Except Flaw (List Nat × List Char)
  | '.' :: rest =>
    match digitsOf rest with
    | ([], _) => .error (missingDigit rest)
    | r => .ok r
  | cs => .ok ([], cs)

def scanExponent (cs : List Char) : Except Flaw (Option (Bool × List Nat) × List Char) :=
  match cs with
  | c :: rest =>
    if c = 'e' || c = 'E' then
      let (negative, rest) :=
        match rest with
        | '+' :: r => (false, r)
        | '-' :: r => (true, r)
        | r => (false, r)
      match digitsOf rest with
      | ([], _) => .error (missingDigit rest)
      | (ds, rest) => .ok (some (negative, ds), rest)
    else .ok (none, cs)
  | [] => .ok (none, [])

def parseNumber (cs : List Char) : Except Flaw (Number × List Char) := do
  let (negative, cs) :=
    match cs with
    | '-' :: r => (true, r)
    | r => (false, r)
  let (whole, cs) ← scanWhole cs
  let (fraction, cs) ← scanFraction cs
  let (exponent, cs) ← scanExponent cs
  .ok (⟨negative, whole, fraction, exponent⟩, cs)

mutual

/-- Reads a value. A bracket and an item take one of `fuel` each, so twice the length of the text is
enough. -/
def parseValue : (fuel : Nat) → List Char → Tree × List Char
  | 0, _ => (.broken .tooDeep, [])
  | fuel + 1, cs =>
    match skipBlanks cs with
    | [] => (.broken .endInValue, [])
    | 'n' :: rest => scanWord .null ['u', 'l', 'l'] rest
    | 't' :: rest => scanWord (.bool true) ['r', 'u', 'e'] rest
    | 'f' :: rest => scanWord (.bool false) ['a', 'l', 's', 'e'] rest
    | '"' :: rest =>
      match parseString rest with
      | .ok (s, rest) => (.string s, rest)
      | .error f => (.broken f, [])
    | '[' :: rest =>
      match skipBlanks rest with
      | [] => (.array [] (some .endInArray), [])
      | ']' :: rest => (.array [] none, rest)
      | rest =>
        let (items, ending, rest) := parseItems fuel rest
        (.array items ending, rest)
    | '{' :: rest =>
      match skipBlanks rest with
      | [] => (.object [] (some .endInObject), [])
      | '}' :: rest => (.object [] none, rest)
      | '"' :: rest =>
        let (fields, ending, rest) := parseFields fuel rest
        (.object fields ending, rest)
      | rest => (.nameless (parseValue fuel rest).1, [])
    | c :: rest =>
      if c = '-' || c.isDigit then
        match parseNumber (c :: rest) with
        | .ok (n, rest) => (.number n, rest)
        | .error f => (.broken f, [])
      else (.broken .expectedValue, [])

/-- Reads the items of an array from the next one on, and the flaw at its end. -/
def parseItems : (fuel : Nat) → List Char → List Tree × Option Flaw × List Char
  | 0, _ => ([], some .tooDeep, [])
  | fuel + 1, cs =>
    let (item, rest) := parseValue fuel cs
    match skipBlanks rest with
    | ']' :: rest => ([item], none, rest)
    | ',' :: rest =>
      match skipBlanks rest with
      | [] => ([item], some .endInValue, [])
      | ']' :: _ => ([item], some .trailingComma, [])
      | rest =>
        let (items, ending, rest) := parseItems fuel rest
        (item :: items, ending, rest)
    | [] => ([item], some .endInArray, [])
    | _ => ([item], some .expectedItem, [])

/-- Reads the fields of an object from within the name of the next one on, and the flaw at its
end. -/
def parseFields : (fuel : Nat) → List Char →
    List (Except Flaw String × Tree) × Option Flaw × List Char
  | 0, _ => ([], some .tooDeep, [])
  | fuel + 1, cs =>
    match parseString cs with
    | .error f => ([], some f, [])
    | .ok (name, rest) =>
      match skipBlanks rest with
      | ':' :: rest =>
        let (value, rest) := parseValue fuel rest
        match skipBlanks rest with
        | '}' :: rest => ([(name, value)], none, rest)
        | ',' :: rest =>
          match skipBlanks rest with
          | '"' :: rest =>
            let (fields, ending, rest) := parseFields fuel rest
            ((name, value) :: fields, ending, rest)
          | '}' :: _ => ([(name, value)], some .trailingComma, [])
          | [] => ([(name, value)], some .endInValue, [])
          | _ => ([(name, value)], some .expectedName, [])
        | [] => ([(name, value)], some .endInObject, [])
        | _ => ([(name, value)], some .expectedField, [])
      | [] => ([(name, .broken .endInObject)], some .endInObject, [])
      | _ => ([(name, .broken .expectedColon)], some .expectedColon, [])

end

/-- The tree of a text and the text that follows the value. -/
def Tree.parse (s : String) : Tree × List Char :=
  parseValue (2 * s.length + 2) s.toList

end Json

end TxRecovery
