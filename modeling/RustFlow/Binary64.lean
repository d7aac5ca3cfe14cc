/-
# Double-precision numbers

A finite `Binary64` is a sign and a multiple `mantissa * 2 ^ shift` of the least
positive value `2 ^ (-places)`; the others are the infinities and what is not a
number.  A finite value has one form: its mantissa has at most 53 bits, and all of
them unless the shift is zero (`isForm`).

`ofDecimal` rounds a decimal to the nearest value, a tie to the even mantissa.
`parse?` reads the decimal notation with an optional sign, point and exponent.
-/

namespace RustFlow

/-- Whether a mantissa and a shift are the form of a finite value. -/
def Binary64.isForm (mantissa shift : Nat) : Bool :=
  decide (mantissa < Nat.pow 2 53) && (shift == 0 || decide (Nat.pow 2 52 ≤ mantissa)) &&
    decide (shift ≤ 2045)

/-- A double-precision number. -/
inductive Binary64 where
  | finite (negative : Bool) (mantissa shift : Nat) (form : Binary64.isForm mantissa shift = true)
  | infinite (negative : Bool)
  | nan
deriving DecidableEq, Repr

namespace Binary64

/-- The binary places, and the decimal ones, of the least positive value. -/
def places : Nat := 1074

/-- Zero of either sign. -/
def zero (negative : Bool) : Binary64 := finite negative 0 0 (by decide)

/-- The same number with the other sign. -/
def neg : Binary64 → Binary64
  | finite negative m shift form => finite (!negative) m shift form
  | infinite negative => infinite (!negative)
  | nan => nan

/-- The quotient of two naturals rounded to nearest, ties to even. -/
def roundQuotient (num den : Nat) : Nat :=
  let m := num / den
  let r := num % den
  if 2 * r > den || (2 * r == den && m % 2 == 1) then m + 1 else m

/-- The value of a form.  What is rounded and has none is too large. -/
def ofForm (negative : Bool) (m shift : Nat) : Binary64 :=
  if form : isForm m shift = true then finite negative m shift form else infinite negative

/-- The value nearest to the positive quotient `num / den`. -/
def ofQuotient (negative : Bool) (num den : Nat) : Binary64 :=
  let num := Nat.pow 2 places * num
  let shift := Nat.log2 (num / den) - 52
  let m := roundQuotient num (den * Nat.pow 2 shift)
  if m = Nat.pow 2 53 then ofForm negative (Nat.pow 2 52) (shift + 1) else ofForm negative m shift

/-- The value nearest to `digits * 10 ^ exponent`.  Magnitudes far outside the
range are decided by their number of digits. -/
def ofDecimal (negative : Bool) (digits : Nat) (exponent : Int) : Binary64 :=
  if digits = 0 then zero negative
  else
    let magnitude : Int := (Nat.toDigits 10 digits).length + exponent
    if magnitude > 310 then infinite negative
    else if magnitude < -330 then zero negative
    else if exponent < 0 then ofQuotient negative digits (Nat.pow 10 exponent.natAbs)
    else ofQuotient negative (digits * Nat.pow 10 exponent.natAbs) 1

/-- The value of decimal digits after a number `acc`, with the count of digits. -/
def readDigits : Nat → Nat → List Char → Nat × Nat × List Char
  | acc, n, [] => (acc, n, [])
  | acc, n, c :: cs =>
    if c.isDigit then readDigits (acc * 10 + (c.toNat - '0'.toNat)) (n + 1) cs else (acc, n, c :: cs)

/-- Reads the exponent part `e5`, `E-3`, `e+7` up to the end; no text is zero. -/
def readExponent : List Char → Option Int
  | [] => some 0
  | c :: cs =>
    if c = 'e' || c = 'E' then
      let (negative, cs) : Bool × List Char :=
        match cs with
        | '-' :: r => (true, r)
        | '+' :: r => (false, r)
        | r => (false, r)
      let (e, n, rest) := readDigits 0 0 cs
      if n = 0 || !rest.isEmpty then none else some (if negative then -(e : Int) else e)
    else none

/-- Reads an unsigned decimal: digits with at most one point among or around
them, then the exponent. -/
def readDecimal (negative : Bool) (cs : List Char) : Option Binary64 :=
  let (whole, n, rest) := readDigits 0 0 cs
  let (digits, k, rest) : Nat × Nat × List Char :=
    match rest with
    | '.' :: r => readDigits whole 0 r
    | r => (whole, 0, r)
  if n + k = 0 then none
  else (readExponent rest).map fun e => ofDecimal negative digits (e - k)

/-- Reads a number: an optional sign, then a decimal or one of the words `inf`,
`infinity` and `nan` in any case. -/
def parse? (s : String) : Option Binary64 :=
  let (negative, cs) : Bool × List Char :=
    match s.toList with
    | '-' :: r => (true, r)
    | '+' :: r => (false, r)
    | r => (false, r)
  let word := String.ofList (cs.map Char.toLower)
  if word = "inf" || word = "infinity" then some (infinite negative)
  else if word = "nan" then some nan
  else readDecimal negative cs

end Binary64

end RustFlow
