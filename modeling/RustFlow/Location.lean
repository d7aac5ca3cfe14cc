/-
# Places in source text

A `Position` is a line and a column, both counted from one; columns count
characters, so a tab is one column.  A `Location` adds the name of the file the
text came from.  Trees and graph nodes carry positions, since all of one body
lies in one file; units, parameters and errors carry locations.
-/

namespace RustFlow

/-- A line and a column, both counted from one. -/
structure Position where
  line : Nat
  column : Nat
deriving DecidableEq, Repr, Inhabited

namespace Position

/-- The first character of a text. -/
def start : Position := ⟨1, 1⟩

/-- The text `line:column`. -/
def render (p : Position) : String :=
  toString p.line ++ ":" ++ toString p.column

/-- The place after one more character: a newline opens the next line. -/
def advance (p : Position) (c : Char) : Position :=
  if c = '\n' then ⟨p.line + 1, 1⟩ else ⟨p.line, p.column + 1⟩

end Position

/-- A position in a named file. -/
structure Location where
  file : String
  position : Position
deriving DecidableEq, Repr, Inhabited

namespace Location

/-- The text `file:line:column`. -/
def render (l : Location) : String :=
  l.file ++ ":" ++ l.position.render

end Location

end RustFlow
