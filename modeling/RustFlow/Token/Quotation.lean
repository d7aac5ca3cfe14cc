/-
# Quoted literals

Strings, byte strings and C strings, plain or raw, and character and byte
literals.  Every reader takes the text after the opening mark and gives the value
with the text after the closing mark; `none` means that the text is no such
literal.

The three kinds differ in what they admit:

* text: any character, `\x` up to `7f`, `\u`;
* bytes: ASCII only, any `\x`, no `\u`;
* C text: as text, but any `\x` and nothing that stands for the zero character.

A carriage return is only admitted before a newline, and such a pair counts as a
newline.  A backslash at the end of a line drops the white space that follows.
-/

import RustFlow.Token.Numeral

namespace RustFlow
namespace Quotation

/-- What a quoted literal may hold. -/
inductive Kind where
  | text | bytes | cText
deriving DecidableEq, Repr

/-- The digits of `\u` up to the closing brace: at most six, underscores between
them. -/
def unicodeDigits : Nat → Nat → List Char → Option (Char × List Char)
  | _, _, [] => none
  | count, value, c :: rest =>
    match Numeral.digit? c with
    | some d => if count = 6 then none else unicodeDigits (count + 1) (value * 16 + d) rest
    | none =>
      if count = 0 then none
      else if c = '_' then unicodeDigits count value rest
      else if c = '\x7d' then
        if value.isValidChar then some (Char.ofNat value, rest) else none
      else none

/-- The character that an escape stands for, read after the backslash. -/
def escape (kind : Kind) : List Char → Option (Char × List Char)
  | 'x' :: a :: b :: rest => do
    let high ← Numeral.digit? a
    let low ← Numeral.digit? b
    let value := high * 16 + low
    match kind with
    | .text => if high ≤ 7 then some (Char.ofNat value, rest) else none
    | .bytes => some (Char.ofNat value, rest)
    | .cText => if value = 0 then none else some (Char.ofNat value, rest)
  | 'u' :: '\x7b' :: rest => do
    let (c, rest) ← unicodeDigits 0 0 rest
    match kind with
    | .text => some (c, rest)
    | .bytes => none
    | .cText => if c = '\x00' then none else some (c, rest)
  | '0' :: rest => if kind == .cText then none else some ('\x00', rest)
  | 'n' :: rest => some ('\n', rest)
  | 'r' :: rest => some ('\r', rest)
  | 't' :: rest => some ('\t', rest)
  | '\\' :: rest => some ('\\', rest)
  | '\'' :: rest => some ('\'', rest)
  | '"' :: rest => some ('"', rest)
  | _ => none

/-- Whether a character may stand unescaped. -/
def admits (kind : Kind) (c : Char) : Bool :=
  match kind with
  | .text => true
  | .bytes => c.toNat < 0x80
  | .cText => c ≠ '\x00'

/-- Drops the white space after a backslash at the end of a line; `afterReturn`
says that a carriage return was the last character. -/
def continueLine : Bool → List Char → Option (List Char)
  | true, '\n' :: rest => continueLine false rest
  | true, _ => none
  | false, [] => none
  | false, c :: rest =>
    if c = ' ' || c = '\t' || c = '\n' then continueLine false rest
    else if c = '\r' then continueLine true rest
    else some (c :: rest)

/-- The characters up to the closing mark, in at most a given number of steps. -/
def cookedWithin (kind : Kind) : Nat → List Char → Option (List Char × List Char)
  | 0, _ => none
  | n + 1, cs =>
    let keep (c : Char) (rest : List Char) :=
      (cookedWithin kind n rest).map fun p => (c :: p.1, p.2)
    match cs with
    | [] => none
    | '"' :: rest => some ([], rest)
    | '\r' :: '\n' :: rest => keep '\n' rest
    | '\r' :: _ => none
    | '\\' :: '\n' :: rest => (continueLine false rest).bind (cookedWithin kind n)
    | '\\' :: '\r' :: rest => (continueLine true rest).bind (cookedWithin kind n)
    | '\\' :: rest => (escape kind rest).bind fun (c, rest) => keep c rest
    | c :: rest => if admits kind c then keep c rest else none

/-- A string after its opening mark. -/
def cooked (kind : Kind) (cs : List Char) : Option (List Char × List Char) :=
  cookedWithin kind (cs.length + 1) cs

/-- The characters of a raw string up to a mark followed by `hashes`. -/
def rawBody (kind : Kind) (hashes : List Char) : List Char → Option (List Char × List Char)
  | [] => none
  | '\r' :: '\n' :: rest =>
    (rawBody kind hashes rest).map fun p => ('\r' :: '\n' :: p.1, p.2)
  | '\r' :: _ => none
  | c :: rest =>
    if c = '"' && hashes.isPrefixOf rest then some ([], rest.drop hashes.length)
    else if admits kind c then (rawBody kind hashes rest).map fun p => (c :: p.1, p.2)
    else none

/-- A raw string after its letters: at most 255 hashes, a mark, the characters,
and the mark and hashes again. -/
def raw (kind : Kind) (cs : List Char) : Option (List Char × List Char) :=
  let hashes := cs.takeWhile (· == '#')
  match cs.drop hashes.length with
  | '"' :: rest => if hashes.length ≤ 255 then rawBody kind hashes rest else none
  | _ => none

/-- One character or escape before a closing apostrophe. -/
def single (kind : Kind) : List Char → Option (Char × List Char)
  | '\\' :: rest => do
    let (c, rest) ← escape kind rest
    match rest with
    | '\'' :: rest => some (c, rest)
    | _ => none
  | c :: '\'' :: rest => if admits kind c then some (c, rest) else none
  | _ => none

/-- The quoted literal that a text starts with, up to its suffix. -/
def read? (cs : List Char) : Option (Ast.Lit × List Char) :=
  let str (r : Option (List Char × List Char)) : Option (Ast.Lit × List Char) :=
    r.map fun (value, rest) => (.str (String.ofList value), rest)
  let bytes (r : Option (List Char × List Char)) : Option (Ast.Lit × List Char) :=
    r.map fun (_, rest) => (.bytes, rest)
  match cs with
  | '"' :: rest => str (cooked .text rest)
  | 'r' :: rest => str (raw .text rest)
  | 'b' :: '"' :: rest => bytes (cooked .bytes rest)
  | 'b' :: 'r' :: rest => bytes (raw .bytes rest)
  | 'c' :: '"' :: rest => bytes (cooked .cText rest)
  | 'c' :: 'r' :: rest => bytes (raw .cText rest)
  | 'b' :: '\'' :: rest => (single .bytes rest).map fun (c, rest) => (.byte c.toNat, rest)
  | '\'' :: rest => (single .text rest).map fun (c, rest) => (.char c, rest)
  | _ => none

end Quotation
end RustFlow
