/-!
# Flaws

Why a text is not JSON, and how messages say so. A text is read from the front and has one flaw: the
first that a reader meets.
-/

namespace TxRecovery

namespace Json

inductive Flaw where
  /-- The text ends where a value should start, or inside a word or number. -/
  | endInValue
  | endInString
  | endInArray
  | endInObject
  | expectedValue
  /-- A word starts like null, true or false, but is another. -/
  | expectedWord
  | expectedColon
  | expectedItem
  | expectedField
  /-- A field's name is not a string. -/
  | expectedName
  | trailingComma
  /-- More text follows where all has been read. -/
  | trailingText
  | badNumber
  /-- A number is beyond the doubles. -/
  | hugeNumber
  | badEscape
  | controlCharacter
  /-- The first half of a surrogate pair without an escape behind it. -/
  | cutPair
  /-- A half of a surrogate pair without its other half. -/
  | loneHalf
  | tooDeep
deriving DecidableEq

def Flaw.message : Flaw → String
  | endInValue => "EOF while parsing a value"
  | endInString => "EOF while parsing a string"
  | endInArray => "EOF while parsing a list"
  | endInObject => "EOF while parsing an object"
  | expectedValue => "expected value"
  | expectedWord => "expected ident"
  | expectedColon => "expected `:`"
  | expectedItem => "expected `,` or `]`"
  | expectedField => "expected `,` or `\x7d`"
  | expectedName => "key must be a string"
  | trailingComma => "trailing comma"
  | trailingText => "trailing characters"
  | badNumber => "invalid number"
  | hugeNumber => "number out of range"
  | badEscape => "invalid escape"
  | controlCharacter => "control character (\\u0000-\\u001F) found while parsing a string"
  | cutPair => "unexpected end of hex escape"
  | loneHalf => "lone leading surrogate in hex escape"
  | tooDeep => "recursion limit exceeded"

/-- What the flaw behind an item is called where no further item was looked for. -/
def Flaw.behindLast : Flaw → Flaw
  | endInArray => endInArray
  | trailingComma => trailingComma
  | _ => trailingText

end Json

end TxRecovery
