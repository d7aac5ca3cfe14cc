/-
# Number literals

A numeral is an integer in base 2, 8, 10 or 16, or a decimal with a point or an
exponent; underscores may stand between its digits.  An identifier directly after
it is its suffix.

`scan` finds where a numeral ends in source text, and `value` reads one.  They
agree except where an exponent has no digits: `1e` is the integer `1` with the
suffix `e`.
-/

import RustFlow.Ast.Path
import RustFlow.Text.Identifier

namespace RustFlow
namespace Numeral

/-- The value of a digit up to base 16. -/
def digit? (c : Char) : Option Nat :=
  if c.isDigit then some (c.toNat - '0'.toNat)
  else if 'a' ≤ c && c ≤ 'f' then some (c.toNat - 'a'.toNat + 10)
  else if 'A' ≤ c && c ≤ 'F' then some (c.toNat - 'A'.toNat + 10)
  else none

/-- Splits off the identifier that a text starts with, if it starts with one. -/
def splitIdent (cs : List Char) : List Char × List Char :=
  match cs with
  | c :: rest =>
    if Text.isIdentStart c then
      (c :: rest.takeWhile Text.isIdentContinue, rest.dropWhile Text.isIdentContinue)
    else ([], cs)
  | [] => ([], [])

/-- Whether a text is an identifier. -/
def isIdent (cs : List Char) : Bool := !cs.isEmpty && (splitIdent cs).2.isEmpty

/-- Drops a suffix; the text must not go on as a word. -/
def endWord (cs : List Char) : Option (List Char) :=
  let rest := (splitIdent cs).2
  match rest with
  | c :: _ => if Text.isIdentContinue c then none else some rest
  | [] => some rest

/-- The base that a numeral starts with, and what follows its mark. -/
def splitBase : List Char → Nat × List Char
  | '0' :: 'x' :: rest => (16, rest)
  | '0' :: 'o' :: rest => (8, rest)
  | '0' :: 'b' :: rest => (2, rest)
  | rest => (10, rest)

/-- Scans digits of a base; `seen` says whether there was one.  A decimal digit
outside the base is refused, a letter ends the digits. -/
def scanDigits (base : Nat) : Bool → List Char → Option (List Char)
  | seen, [] => if seen then some [] else none
  | seen, c :: rest =>
    if c = '_' then
      if !seen && base == 10 then none else scanDigits base seen rest
    else
      match digit? c with
      | some d =>
        if d < base then scanDigits base true rest
        else if c.isDigit then none
        else if seen then some (c :: rest) else none
      | none => if seen then some (c :: rest) else none

/-- What follows an integer. -/
def scanInt (cs : List Char) : Option (List Char) := do
  let (base, rest) := splitBase cs
  endWord (← scanDigits base false rest)

/-- What follows the digits of an exponent; `none` if there are none. -/
def scanExponent (cs : List Char) : Option (List Char) :=
  let unsigned :=
    match cs.dropWhile (· == '_') with
    | '+' :: rest => rest
    | '-' :: rest => rest
    | rest => rest
  let body := unsigned.takeWhile fun c => c.isDigit || c == '_'
  if body.any Char.isDigit then some (unsigned.drop body.length) else none

/-- What follows the digits, point and exponent of a decimal; `dotted` says
whether the point was seen. -/
def scanDecimal : Bool → List Char → Option (List Char)
  | dotted, [] => if dotted then some [] else none
  | dotted, c :: rest =>
    if c.isDigit || c = '_' then scanDecimal dotted rest
    else if c = '.' && !dotted then
      match rest with
      | d :: _ => if d = '.' || Text.isIdentStart d then none else scanDecimal true rest
      | [] => some []
    else if c = 'e' || c = 'E' then
      match scanExponent rest with
      | some after => some after
      | none => if dotted then some (c :: rest) else none
    else if dotted then some (c :: rest)
    else none

/-- What follows a decimal with a point or an exponent. -/
def scanFloat (cs : List Char) : Option (List Char) := do
  endWord (← scanDecimal false cs)

/-- What follows a numeral. -/
def scan (cs : List Char) : Option (List Char) :=
  match cs with
  | c :: _ => if c.isDigit then (scanFloat cs).or (scanInt cs) else none
  | [] => none

/-- Whether the text after the `e` of a decimal numeral makes it an exponent. -/
def isExponent (cs : List Char) : Bool :=
  let body := cs.takeWhile fun c => c.isDigit || c == '_'
  match cs.drop body.length with
  | [] => body.any Char.isDigit
  | c :: rest =>
    c == '+' || c == '-' || (body.any Char.isDigit && isIdent (c :: rest))

/-- The digits of an integer: their value, whether there was one, and the suffix.
A point or an exponent shows that the numeral is no integer. -/
def readInt (base : Nat) : Nat → Bool → List Char → Option (Nat × String)
  | value, seen, [] => if seen then some (value, "") else none
  | value, seen, c :: rest =>
    let suffix :=
      if seen && isIdent (c :: rest) then some (value, String.ofList (c :: rest)) else none
    if c = '_' then readInt base value seen rest
    else if c = '.' && base == 10 then none
    else if (c = 'e' || c = 'E') && base == 10 then
      if isExponent rest then none else suffix
    else
      match digit? c with
      | some d =>
        if d < base then readInt base (value * base + d) true rest
        else if c.isDigit || base > 10 then none
        else suffix
      | none => suffix

/-- The part of a decimal numeral before its suffix, without underscores and
plus signs.  The flags say whether the point, the `e` and a digit after it were
seen. -/
def splitFloat : Bool → Bool → Bool → List Char → Option (List Char × List Char)
  | _, inExp, expSeen, [] => if inExp && !expSeen then none else some ([], [])
  | dotted, inExp, expSeen, c :: rest =>
    let stop := if inExp && !expSeen then none else some ([], c :: rest)
    let keep (d : List Char) (r : Option (List Char × List Char)) :=
      r.map fun p => (d ++ p.1, p.2)
    if c = '_' then splitFloat dotted inExp expSeen rest
    else if c.isDigit then keep [c] (splitFloat dotted inExp (expSeen || inExp) rest)
    else if c = '.' then
      if inExp || dotted then none else keep ['.'] (splitFloat true inExp expSeen rest)
    else if c = 'e' || c = 'E' then
      match rest.dropWhile (· == '_') with
      | d :: _ =>
        if d = '-' || d = '+' || d.isDigit then
          if inExp then stop else keep ['e'] (splitFloat dotted true false rest)
        else stop
      | [] => stop
    else if c = '-' || c = '+' then
      if expSeen || !inExp then none
      else keep (if c = '-' then ['-'] else []) (splitFloat dotted inExp expSeen rest)
    else stop

/-- The value of a decimal with a point or an exponent, and its suffix. -/
def readFloat (negative : Bool) (cs : List Char) : Option (Binary64 × String) := do
  let (digits, suffix) ← splitFloat false false false cs
  if suffix.isEmpty || isIdent suffix then
    let value ← Binary64.readDecimal negative digits
    return (value, String.ofList suffix)
  else none

/-- The literal that a numeral stands for, with a sign before it or not. -/
def value? (negative : Bool) (cs : List Char) : Option Ast.Lit :=
  let (base, rest) := splitBase cs
  match readInt base 0 false rest with
  | some (n, suffix) => some (.int negative n suffix)
  | none => (readFloat negative cs).map fun (x, suffix) => .float x suffix

end Numeral
end RustFlow
