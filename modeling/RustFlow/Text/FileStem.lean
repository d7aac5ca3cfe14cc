/-
# File stems

The stem of a file name is its last component without its extension.  Components
are divided by `/`; empty ones and `.` do not count.  The extension starts at the
last point, unless that is the first character.

| name | stem |
| --- | --- |
| `src/shapes.rs` | `shapes` |
| `x.tar.gz` | `x.tar` |
| `dir/` | `dir` |
| `.rs` | `.rs` |
| `a.` | `a` |
| `a/..` | none |
-/

namespace RustFlow

/-- The text before the last point and, if there is a point, what follows it. -/
def splitLastPoint : List Char → List Char × Option (List Char)
  | [] => ([], none)
  | c :: rest =>
    match splitLastPoint rest with
    | (stem, some extension) => (c :: stem, some extension)
    | (stem, none) => if c = '.' then ([], some stem) else (c :: stem, none)

/-- The components of a file name that name something. -/
def fileComponents (name : List Char) : List (List Char) :=
  (name.splitOn '/').filter fun part => !part.isEmpty && part != ['.']

/-- The last component of a file name without its extension. -/
def fileStem? (name : String) : Option String :=
  match (fileComponents name.toList).getLast? with
  | none => none
  | some part =>
    if part = ['.', '.'] then none
    else
      match splitLastPoint part with
      | ([], _) => some (String.ofList part)
      | (stem, _) => some (String.ofList stem)

/-- The name of the module in a file: the stem of the file name, or all of it if it
has none. -/
def moduleName (file : String) : String := (fileStem? file).getD file

end RustFlow
