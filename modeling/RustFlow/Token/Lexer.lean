/-
# Reading tokens

`Token.read?` turns text into trees of tokens.  Blanks and comments separate
tokens.  A documentation comment is an attribute: it becomes the tokens
`#[doc = "…"]`, or `#![doc = "…"]` for the inner kind, all placed where the
comment starts.

A mark in the form of a comment in parentheses stands for a literal that could
not be written; it is one token, not a group.

A text that is no sequence of tokens, or whose delimiters do not match, is
refused.
-/

import RustFlow.Text.Quoted
import RustFlow.Text.Ranges
import RustFlow.Token
import RustFlow.Token.Quotation

namespace RustFlow
namespace Token

/-- The position after a text. -/
def advanceOver (p : Position) (text : List Char) : Position := text.foldl Position.advance p

/-- The part of a text before a known remainder. -/
def consumed (cs rest : List Char) : List Char := cs.take (cs.length - rest.length)

/-- Splits a text at the end of the line; a carriage return before the newline
belongs to neither part. -/
def splitLine : List Char → List Char × List Char
  | [] => ([], [])
  | '\n' :: rest => ([], '\n' :: rest)
  | '\r' :: '\n' :: rest => ([], '\n' :: rest)
  | c :: rest =>
    let (line, after) := splitLine rest
    (c :: line, after)

/-- What follows a block comment, at a given depth of nested comments. -/
def afterBlock : Nat → List Char → Option (List Char)
  | _, [] => none
  | depth, '/' :: '*' :: rest => afterBlock (depth + 1) rest
  | depth, '*' :: '/' :: rest =>
    match depth with
    | 0 => none
    | 1 => some rest
    | d + 2 => afterBlock (d + 1) rest
  | depth, _ :: rest => afterBlock depth rest

/-- What follows one blank or one comment that is no documentation; `none` if the
text starts with neither. -/
def skipOne (cs : List Char) : Option (List Char) :=
  match cs with
  | '/' :: '/' :: '/' :: '/' :: _ => some (splitLine cs).2
  | '/' :: '/' :: '/' :: _ => none
  | '/' :: '/' :: '!' :: _ => none
  | '/' :: '/' :: _ => some (splitLine cs).2
  | '/' :: '*' :: '*' :: '/' :: rest => some rest
  | '/' :: '*' :: '*' :: '*' :: _ => afterBlock 0 cs
  | '/' :: '*' :: '*' :: _ => none
  | '/' :: '*' :: '!' :: _ => none
  | '/' :: '*' :: _ => afterBlock 0 cs
  | c :: rest => if Text.isBlank c then some rest else none
  | [] => none

/-- Drops blanks and comments in at most a given number of steps. -/
def skipWithin : Nat → List Char → List Char
  | 0, cs => cs
  | n + 1, cs =>
    match skipOne cs with
    | some rest => skipWithin n rest
    | none => cs

/-- Drops blanks and comments. -/
def skipBlanks (cs : List Char) : List Char := skipWithin cs.length cs

/-- Whether every carriage return stands before a newline. -/
def noBareReturn : List Char → Bool
  | [] => true
  | '\r' :: '\n' :: rest => noBareReturn rest
  | '\r' :: _ => false
  | _ :: rest => noBareReturn rest

/-- The documentation comment that a text starts with: its content, whether it is
an inner one, and what follows. -/
def docComment? (cs : List Char) : Option (List Char × Bool × List Char) :=
  let line (rest : List Char) (inner : Bool) :=
    let (content, after) := splitLine rest
    if noBareReturn content then some (content, inner, after) else none
  let block (rest : List Char) (inner : Bool) :=
    match afterBlock 1 rest with
    | some after =>
      let content := (consumed rest after).dropLast.dropLast
      if noBareReturn content then some (content, inner, after) else none
    | none => none
  match cs with
  | '/' :: '/' :: '!' :: rest => line rest true
  | '/' :: '/' :: '/' :: '/' :: _ => none
  | '/' :: '/' :: '/' :: rest => line rest false
  | '/' :: '*' :: '!' :: rest => block rest true
  | '/' :: '*' :: '*' :: '*' :: _ => none
  | '/' :: '*' :: '*' :: rest => block rest false
  | _ => none

/-- The text of a string literal for a documentation comment. -/
def docText : List Char → String
  | [] => ""
  | '\x00' :: d :: rest =>
    (if '0' ≤ d && d ≤ '7' then "\\x00" else "\\0") ++ docText (d :: rest)
  | c :: rest => Text.quoteChar '"' c ++ docText rest

/-- The attribute that a documentation comment stands for. -/
def docTokens (p : Position) (content : List Char) (inner : Bool) : List Token :=
  let value : Token := .literal p (.str (String.ofList content)) ("\"" ++ docText content ++ "\"")
  let body : Token := .group p .bracket [.ident p "doc", .punct p '=' false, value]
  .punct p '#' false :: (if inner then [.punct p '!' false] else []) ++ [body]

/-- The characters of punctuation. -/
def punctChars : List Char := "~!@#$%^&*-=+|;:,<.>/?'".toList

/-- Whether a text starts with punctuation; the start of a comment does not
count. -/
def startsPunct : List Char → Bool
  | '/' :: '/' :: _ => false
  | '/' :: '*' :: _ => false
  | c :: _ => punctChars.contains c
  | [] => false

/-- The starts of quoted literals that no identifier may look like. -/
def quotationStarts : List (List Char) :=
  ["r\"", "r#\"", "r##", "b\"", "b'", "br\"", "br#", "c\"", "cr\"", "cr#"].map String.toList

/-- An identifier, raw or not, with what follows. -/
def anyIdent? (cs : List Char) : Option (String × List Char) :=
  match cs with
  | 'r' :: '#' :: rest =>
    let (name, after) := Numeral.splitIdent rest
    let text := String.ofList name
    if name.isEmpty || ["_", "super", "self", "Self", "crate"].contains text then none
    else some ("r#" ++ text, after)
  | _ =>
    let (name, after) := Numeral.splitIdent cs
    if name.isEmpty then none else some (String.ofList name, after)

/-- An identifier that is not the start of a quoted literal. -/
def ident? (cs : List Char) : Option (String × List Char) :=
  if quotationStarts.any (·.isPrefixOf cs) then none else anyIdent? cs

/-- A literal with what follows. -/
def literal? (p : Position) (cs : List Char) : Option (Token × List Char) :=
  match Quotation.read? cs with
  | some (value, rest) =>
    let rest := (Numeral.splitIdent rest).2
    some (.literal p value (String.ofList (consumed cs rest)), rest)
  | none =>
    (Numeral.scan cs).map fun rest =>
      let text := consumed cs rest
      (.literal p ((Numeral.value? false text).getD .bytes) (String.ofList text), rest)

/-- A lifetime or a punctuation character, with what follows. -/
def punct? (p : Position) (cs : List Char) : Option (Token × List Char) :=
  if !startsPunct cs then none
  else
    match cs with
    | '\'' :: rest =>
      match anyIdent? rest with
      | some (_, '\'' :: _) => none
      | some (name, after) =>
        if after.head? == some '#' && !("r#".toList.isPrefixOf rest) then none
        else if (ident? rest).isSome then some (.lifetime p name, after)
        else some (.punct p '\'' true, rest)
      | none => none
    | c :: rest => some (.punct p c (startsPunct rest), rest)
    | [] => none

/-- A token that is no group, with what follows. -/
def leaf? (p : Position) (cs : List Char) : Option (Token × List Char) :=
  match literal? p cs with
  | some r => some r
  | none =>
    match punct? p cs with
    | some r => some r
    | none => (ident? cs).map fun (name, rest) => (.ident p name, rest)

/-- The mark for a literal that could not be written. -/
def errorMark : String := "(/*ERROR*/)"

/-- The delimiter that a character opens. -/
def opens? : Char → Option Delimiter
  | '(' => some .paren
  | '[' => some .bracket
  | '\x7b' => some .brace
  | _ => none

/-- The delimiter that a character closes. -/
def closes? : Char → Option Delimiter
  | ')' => some .paren
  | ']' => some .bracket
  | '\x7d' => some .brace
  | _ => none

/-- A group that is still open, with the tokens before it, the latest first. -/
structure Frame where
  pos : Position
  delimiter : Delimiter
  before : List Token

/-- Reads tokens in at most a given number of steps.  The tokens of the innermost
open group are given the latest first. -/
def readWithin : Nat → Position → List Char → List Frame → List Token → Option (List Token)
  | 0, _, _, _, _ => none
  | n + 1, p, cs, frames, done =>
    let start := skipBlanks cs
    let p := advanceOver p (consumed cs start)
    match docComment? start with
    | some (content, inner, rest) =>
      readWithin n (advanceOver p (consumed start rest)) rest frames
        ((docTokens p content inner).reverse ++ done)
    | none =>
      match start with
      | [] => if frames.isEmpty then some done.reverse else none
      | c :: rest =>
        let mark := errorMark.toList
        if mark.isPrefixOf start then
          readWithin n (advanceOver p mark) (start.drop mark.length) frames
            (.literal p .bytes errorMark :: done)
        else
          match opens? c, closes? c with
          | some d, _ => readWithin n (p.advance c) rest (⟨p, d, done⟩ :: frames) []
          | none, some d =>
            match frames with
            | frame :: outer =>
              if frame.delimiter = d then
                readWithin n (p.advance c) rest outer
                  (.group frame.pos d done.reverse :: frame.before)
              else none
            | [] => none
          | none, none =>
            match leaf? p start with
            | some (t, rest) =>
              readWithin n (advanceOver p (consumed start rest)) rest frames (t :: done)
            | none => none

/-- The tokens of a text.  A byte order mark at its start is skipped and takes a
column. -/
def read? (cs : List Char) : Option (List Token) :=
  match cs with
  | '\ufeff' :: rest => readWithin (cs.length + 1) (Position.start.advance '\ufeff') rest [] []
  | _ => readWithin (cs.length + 1) .start cs [] []

end Token
end RustFlow
