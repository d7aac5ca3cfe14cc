/-
# Reading syntax from tokens

A `Parse α` reads an `α` from the tokens ahead or fails; failures carry no
message.  It also keeps the text of what it read as a trail of pieces, one per
token, where an operator of several characters is one piece.  Types and paths take
their text from the trail.  Syntax that has no form of its own is kept verbatim:
its pieces are its tokens as they were written.

The content of a group has to be read to its end.
-/

import RustFlow.Token.Text

namespace RustFlow
namespace Grammar

/-- The tokens ahead and the text read so far. -/
structure Cursor where
  ahead : List Token
  /-- The pieces read so far, the latest first. -/
  trail : List Token.Piece

/-- A reader of syntax. -/
abbrev Parse (α : Type) := StateT Cursor Option α

/-! ### Looking ahead -/

/-- Whether the tokens start with the given punctuation, all of it but the last
character joint. -/
def startsChars : List Char → List Token → Bool
  | [], _ => true
  | [c], .punct _ d _ :: _ => c == d
  | c :: cs, .punct _ d joint :: ts => c == d && joint && startsChars cs ts
  | _, _ => false

def startsPunct (s : String) (ts : List Token) : Bool := startsChars s.toList ts

/-- Whether the tokens start with the given word. -/
def startsWord (w : String) : List Token → Bool
  | .ident _ name :: _ => name == w
  | _ => false

/-- Whether the tokens start with any name or keyword. -/
def startsAnyWord : List Token → Bool
  | .ident .. :: _ => true
  | _ => false

/-- The words that are no identifiers. -/
def reserved : List String :=
  ["_", "abstract", "as", "async", "await", "become", "box", "break", "const", "continue", "crate",
    "do", "dyn", "else", "enum", "extern", "false", "final", "fn", "for", "if", "impl", "in", "let",
    "loop", "macro", "match", "mod", "move", "mut", "override", "priv", "pub", "ref", "return",
    "Self", "self", "static", "struct", "super", "trait", "true", "try", "type", "typeof", "unsafe",
    "unsized", "use", "virtual", "where", "while", "yield"]

/-- Whether the tokens start with an identifier. -/
def startsIdent : List Token → Bool
  | .ident _ name :: _ => !reserved.contains name
  | _ => false

def startsLifetime : List Token → Bool
  | .lifetime .. :: _ => true
  | _ => false

def startsGroup (d : Delimiter) : List Token → Bool
  | .group _ e _ :: _ => d == e
  | _ => false

/-- The literal that the tokens start with, with its text and the tokens after it.
A minus sign may stand before a number. -/
def literal? : List Token → Option (Ast.Lit × String × List Token)
  | .literal _ value text :: rest => some (value, text, rest)
  | .ident _ "true" :: rest => some (.bool true, "true", rest)
  | .ident _ "false" :: rest => some (.bool false, "false", rest)
  | .punct _ '-' _ :: .literal _ value text :: rest =>
    match value with
    | .int _ n suffix => some (.int true n suffix, "- " ++ text, rest)
    | .float x suffix => some (.float x.neg suffix, "- " ++ text, rest)
    | _ => none
  | _ => none

def startsLit (ts : List Token) : Bool := (literal? ts).isSome

/-- Whether one of the given words comes first. -/
def startsOneOf (words : List String) (ts : List Token) : Bool :=
  words.any fun w => startsWord w ts

/-! ### Reading -/

/-- The tokens ahead. -/
def ahead : Parse (List Token) := return (← get).ahead

/-- The place of the next token. -/
def here : Parse Position := return ((← ahead).head?.map Token.pos).getD .start

/-- Whether all tokens are read. -/
def atEnd : Parse Bool := return (← ahead).isEmpty

/-- Fails unless a condition holds. -/
def require (b : Bool) : Parse Unit := if b then pure () else failure

/-- Goes on after the first `n` tokens, with the given text for them. -/
def take (n : Nat) (piece : String) : Parse Unit :=
  modify fun c => ⟨c.ahead.drop n, .plain piece :: c.trail⟩

/-- Reads the given punctuation. -/
def punct (s : String) : Parse Unit := do
  require (startsPunct s (← ahead))
  take s.length s

/-- Reads the given punctuation if it comes next. -/
def punct? (s : String) : Parse Bool := do
  if startsPunct s (← ahead) then
    take s.length s
    return true
  else return false

/-- Reads the given word. -/
def word (w : String) : Parse Unit := do
  require (startsWord w (← ahead))
  take 1 w

/-- Reads the given word if it comes next. -/
def word? (w : String) : Parse Bool := do
  if startsWord w (← ahead) then
    take 1 w
    return true
  else return false

/-- Reads any name or keyword. -/
def anyWord : Parse String := do
  match ← ahead with
  | .ident _ name :: _ =>
    take 1 name
    return name
  | _ => failure

/-- Reads an identifier. -/
def ident : Parse String := do
  require (startsIdent (← ahead))
  anyWord

/-- Reads a lifetime. -/
def lifetime : Parse String := do
  match ← ahead with
  | .lifetime _ name :: _ =>
    take 1 ("'" ++ name)
    return name
  | _ => failure

/-- Reads a lifetime if one comes next. -/
def lifetime? : Parse (Option String) := do
  if startsLifetime (← ahead) then return some (← lifetime) else return none

/-- Reads a literal. -/
def lit : Parse Ast.Lit := do
  match literal? (← ahead) with
  | some (value, text, rest) =>
    modify fun c => ⟨rest, .plain text :: c.trail⟩
    return value
  | none => failure

/-- Reads a group whose whole content is read by `inner`. -/
def group {α : Type} (d : Delimiter) (inner : Parse α) : Parse α := do
  match ← ahead with
  | .group _ e content :: _ =>
    require (d == e)
    match inner ⟨content, []⟩ with
    | some (a, ⟨[], trail⟩) =>
      take 1 (Token.enclose d (Token.Piece.textAll trail.reverse))
      return a
    | _ => failure
  | _ => failure

/-- Reads a group of any tokens: its delimiter and the text of its content. -/
def anyGroup : Parse (Delimiter × String) := do
  match ← ahead with
  | .group _ d content :: _ =>
    let text := Token.textAll content
    take 1 (Token.enclose d text)
    return (d, text)
  | _ => failure

/-- Reads without a trace in the text, and gives the pieces of what was read. -/
def apart {α : Type} (p : Parse α) : Parse (α × List Token.Piece) := do
  let outer := (← get).trail
  modify fun c => { c with trail := [] }
  let a ← p
  let inner := (← get).trail
  modify fun c => { c with trail := outer }
  return (a, inner.reverse)

/-- Puts pieces at the end of the text. -/
def emit (pieces : List Token.Piece) : Parse Unit :=
  modify fun c => { c with trail := pieces.reverse ++ c.trail }

/-- Also gives the pieces of what was read. -/
def traced {α : Type} (p : Parse α) : Parse (α × List Token.Piece) := do
  let (a, pieces) ← apart p
  emit pieces
  return (a, pieces)

/-- Also gives the text of what was read. -/
def capture {α : Type} (p : Parse α) : Parse (α × String) := do
  let (a, pieces) ← traced p
  return (a, Token.Piece.textAll pieces)

/-- Keeps the text of what was read as it was written, if the result asks for
it. -/
def verbatimIf {α : Type} (asks : α → Bool) (p : Parse α) : Parse α := do
  let start ← ahead
  let (a, pieces) ← apart p
  let written := start.take (start.length - (← ahead).length)
  emit (if asks a then written.map Token.piece else pieces)
  return a

/-- Keeps the text of what was read as it was written. -/
def verbatim {α : Type} (p : Parse α) : Parse α := verbatimIf (fun _ => true) p

/-- Reads while a condition on the tokens ahead holds, at most a given number of
times. -/
def whileWithin {α : Type} (go : List Token → Bool) (p : Parse α) : Nat → Parse (List α)
  | 0 => failure
  | n + 1 => do
    if go (← ahead) then
      let a ← p
      return a :: (← whileWithin go p n)
    else return []

/-- Reads while a condition on the tokens ahead holds.  Every turn has to read a
token, which bounds their number. -/
def whileAhead {α : Type} (go : List Token → Bool) (p : Parse α) : Parse (List α) := do
  whileWithin go p ((← ahead).length + 1)

/-- Reads until a condition on the tokens ahead holds, with separators between
and possibly after what is read; at most a given number of times. -/
def separatedWithin {α : Type} (stop : List Token → Bool) (sep : String) (p : Parse α) :
    Nat → Parse (List α)
  | 0 => failure
  | n + 1 => do
    if stop (← ahead) then return []
    else
      let a ← p
      if stop (← ahead) then return [a]
      else
        punct sep
        return a :: (← separatedWithin stop sep p n)

/-- Reads until a condition on the tokens ahead holds, with separators between
and possibly after what is read. -/
def separated {α : Type} (stop : List Token → Bool) (sep : String) (p : Parse α) :
    Parse (List α) := do
  separatedWithin stop sep p ((← ahead).length + 1)

/-- Reads to the end of the tokens, with commas between. -/
def commaSeparated {α : Type} (p : Parse α) : Parse (List α) := separated List.isEmpty "," p

/-- Reads items with separators between them: after each separator the tokens must
satisfy `more`, or the list ends there. -/
def joinedWithin {α : Type} (sep : String) (more : List Token → Bool) (p : Parse α) :
    Nat → Parse (List α)
  | 0 => failure
  | n + 1 => do
    let a ← p
    if ← punct? sep then
      if more (← ahead) then return a :: (← joinedWithin sep more p n) else return [a]
    else return [a]

/-- Reads one or more items with separators between them; the list may end after
a separator if `more` fails there. -/
def joined {α : Type} (sep : String) (more : List Token → Bool) (p : Parse α) :
    Parse (List α) := do
  joinedWithin sep more p ((← ahead).length + 1)

end Grammar
end RustFlow
