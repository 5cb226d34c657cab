import TxRecovery.Text.Invisible

/-!
# Quoted text

How messages show a character or a text that they quote: between quotes, with backslash escapes for
the quote itself, the backslash, tab, line feed, carriage return and NUL, and the code point in
braces for every other character that would not show as itself.
-/

namespace TxRecovery.Text

/-- Lower case hexadecimal digits of a code point. -/
def codePointDigits (n : Nat) : List Char := Nat.toDigits 16 n

/-- The form of a character between quotes of the kind `quote`. -/
def escapeChar (quote c : Char) : List Char :=
  if c = '\x00' then ['\\', '0']
  else if c = '\t' then ['\\', 't']
  else if c = '\r' then ['\\', 'r']
  else if c = '\n' then ['\\', 'n']
  else if c = '\\' || c = quote then ['\\', c]
  else if isInvisible c then ['\\', 'u', '\x7b'] ++ codePointDigits c.toNat ++ ['\x7d']
  else [c]

def quoteChar (c : Char) : String :=
  String.ofList (['\''] ++ escapeChar '\'' c ++ ['\''])

def quoteString (s : String) : String :=
  String.ofList (['"'] ++ s.toList.flatMap (escapeChar '"') ++ ['"'])

end TxRecovery.Text
