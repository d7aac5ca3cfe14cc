/-
# JSON text

A reader for JSON values.  The grammar is the strict one: no comments, no trailing
commas, no leading zeros, no control characters in strings, and blanks are the
space, the tab, the line feed and the carriage return.

A string may hold an escape for half of a surrogate pair.  Such a string is
well-formed and has no text.
-/

namespace RustFlow

/-- A JSON value. -/
inductive Json where
  | null
  | bool (value : Bool)
  /-- A number, as written. -/
  | number (text : String)
  /-- A string; none if half of a surrogate pair stands alone in it. -/
  | string (text : Option String)
  | array (items : List Json)
  | object (members : List (Option String × Json))

namespace Json

/-- Drops blanks. -/
def skipBlank (cs : List Char) : List Char :=
  cs.dropWhile fun c => c == ' ' || c == '\n' || c == '\t' || c == '\r'

/-! ### Strings -/

/-- The value of a hexadecimal digit. -/
def hexDigit? (c : Char) : Option Nat :=
  if '0' ≤ c ∧ c ≤ '9' then some (c.toNat - '0'.toNat)
  else if 'a' ≤ c ∧ c ≤ 'f' then some (c.toNat - 'a'.toNat + 10)
  else if 'A' ≤ c ∧ c ≤ 'F' then some (c.toNat - 'A'.toNat + 10)
  else none

/-- The value of four hexadecimal digits. -/
def hexUnit? (a b c d : Char) : Option Nat := do
  let w ← hexDigit? a
  let x ← hexDigit? b
  let y ← hexDigit? c
  let z ← hexDigit? d
  return ((w * 16 + x) * 16 + y) * 16 + z

/-- One element of a string: a character, or a code unit from an escape. -/
inductive Piece where
  | char (c : Char)
  | unit (value : Nat)

/-- The character of a one-letter escape. -/
def shortEscape? : Char → Option Char
  | '"' => some '"'
  | '\\' => some '\\'
  | '/' => some '/'
  | 'b' => some '\x08'
  | 'f' => some '\x0c'
  | 'n' => some '\n'
  | 'r' => some '\r'
  | 't' => some '\t'
  | _ => none

/-- Reads a string after its opening quote, up to its closing one. -/
def readPieces : List Char → Option (List Piece × List Char)
  | [] => none
  | '"' :: rest => some ([], rest)
  | '\\' :: 'u' :: a :: b :: c :: d :: rest => do
    let u ← hexUnit? a b c d
    let (pieces, after) ← readPieces rest
    return (.unit u :: pieces, after)
  | '\\' :: e :: rest => do
    let ch ← shortEscape? e
    let (pieces, after) ← readPieces rest
    return (.char ch :: pieces, after)
  | c :: rest =>
    if c.toNat < 0x20 || c == '\\' then none
    else do
      let (pieces, after) ← readPieces rest
      return (.char c :: pieces, after)

/-- The characters of a string.  Two units that form a surrogate pair are one
character; a half without the other has none. -/
def decode : List Piece → Option (List Char)
  | [] => some []
  | .char c :: rest => (decode rest).map (c :: ·)
  | .unit hi :: rest =>
    if hi < 0xd800 || 0xdfff < hi then (decode rest).map (Char.ofNat hi :: ·)
    else
      match rest with
      | .unit lo :: after =>
        if hi < 0xdc00 && 0xdc00 ≤ lo && lo ≤ 0xdfff then
          (decode after).map (Char.ofNat (0x10000 + (hi - 0xd800) * 0x400 + (lo - 0xdc00)) :: ·)
        else none
      | _ => none

/-- Reads a string after its opening quote. -/
def readString (cs : List Char) : Option (Option String × List Char) := do
  let (pieces, rest) ← readPieces cs
  return ((decode pieces).map String.ofList, rest)

/-! ### Numbers -/

/-- Splits off digits; there must be one. -/
def readDigits (cs : List Char) : Option (List Char × List Char) :=
  let digits := cs.takeWhile Char.isDigit
  if digits.isEmpty then none else some (digits, cs.dropWhile Char.isDigit)

/-- The digits before the point: a single zero, or digits that start with none. -/
def readWhole (cs : List Char) : Option (List Char × List Char) := do
  let (digits, rest) ← readDigits cs
  if digits.head? == some '0' && digits.length != 1 then none
  return (digits, rest)

/-- The point and the digits after it, if there is a point. -/
def readFraction : List Char → Option (List Char × List Char)
  | '.' :: rest => do
    let (digits, after) ← readDigits rest
    return ('.' :: digits, after)
  | cs => some ([], cs)

/-- The exponent, if there is one. -/
def readExponent : List Char → Option (List Char × List Char)
  | [] => some ([], [])
  | e :: rest =>
    if e == 'e' || e == 'E' then
      match rest with
      | sign :: after =>
        if sign == '+' || sign == '-' then do
          let (digits, after) ← readDigits after
          return (e :: sign :: digits, after)
        else do
          let (digits, after) ← readDigits rest
          return (e :: digits, after)
      | [] => none
    else some ([], e :: rest)

/-- Reads a number without its sign. -/
def readNumber (sign : List Char) (cs : List Char) : Option (Json × List Char) := do
  let (whole, rest) ← readWhole cs
  let (fraction, rest) ← readFraction rest
  let (exponent, rest) ← readExponent rest
  return (number (String.ofList (sign ++ whole ++ fraction ++ exponent)), rest)

/-! ### Values -/

mutual

/-- Reads a value, to a given depth. -/
def readValue : Nat → List Char → Option (Json × List Char)
  | 0, _ => none
  | n + 1, cs =>
    match skipBlank cs with
    | 'n' :: 'u' :: 'l' :: 'l' :: rest => some (null, rest)
    | 't' :: 'r' :: 'u' :: 'e' :: rest => some (bool true, rest)
    | 'f' :: 'a' :: 'l' :: 's' :: 'e' :: rest => some (bool false, rest)
    | '"' :: rest => do
      let (text, after) ← readString rest
      return (string text, after)
    | '-' :: rest => readNumber ['-'] rest
    | '[' :: rest =>
      match skipBlank rest with
      | ']' :: after => some (array [], after)
      | _ => do
        let (items, after) ← readItems n rest
        return (array items, after)
    | '\x7b' :: rest =>
      match skipBlank rest with
      | '\x7d' :: after => some (object [], after)
      | _ => do
        let (members, after) ← readMembers n rest
        return (object members, after)
    | c :: rest => readNumber [] (c :: rest)
    | [] => none

/-- Reads the items of an array up to its closing bracket. -/
def readItems : Nat → List Char → Option (List Json × List Char)
  | 0, _ => none
  | n + 1, cs => do
    let (item, rest) ← readValue n cs
    match skipBlank rest with
    | ',' :: after =>
      let (items, after) ← readItems n after
      return (item :: items, after)
    | ']' :: after => return ([item], after)
    | _ => none

/-- Reads the members of an object up to its closing brace. -/
def readMembers : Nat → List Char → Option (List (Option String × Json) × List Char)
  | 0, _ => none
  | n + 1, cs =>
    match skipBlank cs with
    | '"' :: rest => do
      let (key, rest) ← readString rest
      match skipBlank rest with
      | ':' :: rest =>
        let (value, rest) ← readValue n rest
        match skipBlank rest with
        | ',' :: after =>
          let (members, after) ← readMembers n after
          return ((key, value) :: members, after)
        | '\x7d' :: after => return ([(key, value)], after)
        | _ => none
      | _ => none
    | _ => none

end

/-- Reads a text that holds one value and blanks around it. -/
def read? (text : String) : Option Json :=
  let cs := text.toList
  match readValue (2 * cs.length + 1) cs with
  | some (value, rest) => if (skipBlank rest).isEmpty then some value else none
  | none => none

end Json

end RustFlow
