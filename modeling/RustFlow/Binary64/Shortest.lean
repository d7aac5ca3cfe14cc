/-
# The shortest decimal of a number

The text of a number is the first of some decimals that reads back as the number.  They
are the two next to it on the grid of a power of ten, the nearer one first and the upper
one in a tie, for seventeen grids from that of its first digit on.  Last comes the decimal
with all digits of the number.

A decimal is written in positional notation for magnitudes from `10 ^ (-4)` up to but not
including `10 ^ 16`, with at least one digit after the point, and with an exponent
otherwise.
-/

import RustFlow.Binary64

namespace RustFlow
namespace Binary64

/-- Moves at most `fuel` final zeros of a number into its exponent. -/
def stripZeros : Nat → Nat → Int → Nat × Int
  | 0, d, k => (d, k)
  | fuel + 1, d, k => if d % 10 = 0 then stripZeros fuel (d / 10) (k + 1) else (d, k)

/-- Digits with a point after the first `whole` of them, zeros filled in, and at
least one digit after the point. -/
def positional (digits : List Char) (whole : Int) : String :=
  if whole ≤ 0 then
    "0." ++ String.ofList (List.replicate whole.natAbs '0' ++ digits)
  else if digits.length ≤ whole.natAbs then
    String.ofList (digits ++ List.replicate (whole.natAbs - digits.length) '0') ++ ".0"
  else
    String.ofList (digits.take whole.natAbs) ++ "." ++ String.ofList (digits.drop whole.natAbs)

/-- Digits with a point after the first, then the exponent. -/
def scientific (digits : List Char) (exponent : Int) : String :=
  let point := match digits.drop 1 with
    | [] => ""
    | rest => "." ++ String.ofList rest
  String.ofList (digits.take 1) ++ point ++ "e" ++ toString exponent

/-- The sign of a number, if it is written. -/
def signText (negative : Bool) : String := if negative then "-" else ""

/-- The text of `d * 10 ^ k`. -/
def decimalText (negative : Bool) (d : Nat) (k : Int) : String :=
  let (d, k) := stripZeros 17 d k
  let digits := Nat.toDigits 10 d
  let exponent := k + digits.length - 1
  signText negative ++ if -4 ≤ exponent ∧ exponent ≤ 15 then positional digits (exponent + 1)
    else scientific digits exponent

/-- The points of the grid `10 ^ k` next to `n` times the least positive value, the nearer
one first. -/
def neighbours (n : Nat) (k : Int) : List Nat :=
  let (num, den) : Nat × Nat :=
    if k < 0 then (n * Nat.pow 10 k.natAbs, Nat.pow 2 places)
    else (n, Nat.pow 2 places * Nat.pow 10 k.natAbs)
  let down := num / den
  if 2 * (num % den) ≥ den then [down + 1, down] else [down, down + 1]

/-- The exponent of ten of the first digit of `n` times the least positive value. -/
def leadingExponent (n : Nat) : Int :=
  ((Nat.toDigits 10 (n * Nat.pow 10 400 / Nat.pow 2 places)).length : Int) - 401

/-- The decimals on `fuel` grids: `10 ^ k` and the next finer ones. -/
def gridTexts (negative : Bool) (n : Nat) : Nat → Int → List String
  | 0, _ => []
  | fuel + 1, k =>
    (neighbours n k).map (decimalText negative · k) ++ gridTexts negative n fuel (k - 1)

/-- The decimal with all digits of `n` times the least positive value, which is
`5 ^ places * 10 ^ (-places)`. -/
def exactText (negative : Bool) (n : Nat) : String :=
  signText negative ++ toString (n * Nat.pow 5 places) ++ "e-" ++ toString places

/-- The text of a number. -/
def render : Binary64 → String
  | nan => "NaN"
  | infinite negative => signText negative ++ "inf"
  | finite negative m shift form =>
    let n := m * Nat.pow 2 shift
    if m = 0 then signText negative ++ "0.0"
    else ((gridTexts negative n 17 (leadingExponent n)).find? fun t =>
      parse? t == some (finite negative m shift form)).getD (exactText negative n)

end Binary64
end RustFlow
