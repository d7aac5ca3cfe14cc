/-
# Quoted characters and strings

A character stands between apostrophes, a string between quotation marks.
Inside, the mark itself and the backslash are preceded by a backslash, the five
named controls have their letters, and the characters of `isEscaped` are given
by number in hexadecimal.
-/

import RustFlow.Text.Escaped

namespace RustFlow
namespace Text

/-- A number in lower-case hexadecimal, without leading zeros. -/
def hexText (n : Nat) : String := String.ofList (Nat.toDigits 16 n)

/-- One character between marks `mark`. -/
def quoteChar (mark c : Char) : String :=
  if c = '\x00' then "\\0"
  else if c = '\t' then "\\t"
  else if c = '\r' then "\\r"
  else if c = '\n' then "\\n"
  else if c = '\\' || c = mark then String.ofList ['\\', c]
  else if isEscaped c then "\\u\x7b" ++ hexText c.toNat ++ "\x7d"
  else String.singleton c

/-- The text of a character. -/
def quotedChar (c : Char) : String := "'" ++ quoteChar '\'' c ++ "'"

/-- The text of a string. -/
def quotedString (s : String) : String :=
  "\"" ++ String.join (s.toList.map (quoteChar '"')) ++ "\""

end Text
end RustFlow
