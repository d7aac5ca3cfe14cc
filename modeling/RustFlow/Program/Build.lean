/-
# Building programs

A program is built from the text of one file, or from several files of which each
is read, parsed and assembled before the next.  The grammar is used through a reader
of source files only, so what is said of builds may be said of any reader.
-/

import RustFlow.Grammar.File
import RustFlow.Program.Assembly

namespace RustFlow

/-- Why no program could be built. -/
inductive BuildError where
  /-- A file that cannot be read. -/
  | unreadable
  /-- Text that is no Rust source file. -/
  | malformed
  /-- An item that cannot be lowered. -/
  | lowering (error : Error)
deriving DecidableEq, Repr

namespace BuildError

/-- What was being done to a file. -/
def stage : BuildError → String
  | unreadable => "read"
  | malformed => "parse"
  | lowering _ => "lower"

end BuildError

/-- The failure of one file among several. -/
structure FileError where
  file : String
  cause : BuildError
deriving DecidableEq, Repr

namespace FileError

/-- The text `Failed to read FILE`, or another stage. -/
def message (e : FileError) : String := "Failed to " ++ e.cause.stage ++ " " ++ e.file

end FileError

namespace Program

/-- Adds a source file to a program; `parse` gives its items. -/
def addSource (parse : String → Option (List Ast.Item)) (config : Config) (p : Program)
    (file source : String) : Except BuildError Program :=
  match parse source with
  | none => .error .malformed
  | some items =>
    match assemble config file items p with
    | (.ok _, after) => .ok after
    | (.error e, _) => .error (.lowering e)

/-- Builds a program from the text of one file. -/
def build (config : Config) (file source : String)
    (parse : String → Option (List Ast.Item) := Grammar.readFile?) : Except BuildError Program :=
  addSource parse config .empty file source

/-- Adds several files to a program; `read` gives their text. -/
def addFiles (parse : String → Option (List Ast.Item)) (config : Config)
    (read : String → Option String) : Program → List String → Except FileError Program
  | p, [] => .ok p
  | p, file :: rest =>
    match read file with
    | none => .error ⟨file, .unreadable⟩
    | some source =>
      match addSource parse config p file source with
      | .ok after => addFiles parse config read after rest
      | .error e => .error ⟨file, e⟩

/-- Builds a program from several files, each of which is a module. -/
def buildFiles (config : Config) (read : String → Option String) (files : List String)
    (parse : String → Option (List Ast.Item) := Grammar.readFile?) : Except FileError Program :=
  addFiles parse config read .empty files

end Program

end RustFlow
