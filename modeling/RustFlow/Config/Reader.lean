/-
# Reading the configuration

A configuration is written as a JSON object with some of the keys `strict_types`,
`simplify`, `fail_fast` and `fresh_prefix`, or as an array of their values in this
order.  What is absent takes its default.  In an object other keys are passed
over; one of these may stand once only.
-/

import RustFlow.Config
import RustFlow.Json

namespace RustFlow
namespace Config

/-- The settings by name. -/
inductive Key where
  | strictTypes
  | simplify
  | failFast
  | freshStem
deriving DecidableEq, Repr

namespace Key

/-- The keys in the order of the array form. -/
def all : List Key := [strictTypes, simplify, failFast, freshStem]

/-- The name of a key. -/
def name : Key → String
  | strictTypes => "strict_types"
  | simplify => "simplify"
  | failFast => "fail_fast"
  | freshStem => "fresh_prefix"

/-- The key of a name. -/
def ofName? (s : String) : Option Key := all.find? fun k => k.name == s

end Key

/-- Sets a key to a value of its type. -/
def put? (c : Config) : Key → Json → Option Config
  | .strictTypes, .bool b => some { c with strictTypes := b }
  | .simplify, .bool b => some { c with simplify := b }
  | .failFast, .bool b => some { c with failFast := b }
  | .freshStem, .string (some s) => some { c with freshStem := s }
  | _, _ => none

/-- Sets the keys of an object; `seen` holds those that were set. -/
def ofMembers? : Config → List Key → List (Option String × Json) → Option Config
  | c, _, [] => some c
  | _, _, (none, _) :: _ => none
  | c, seen, (some name, value) :: rest =>
    match Key.ofName? name with
    | none => ofMembers? c seen rest
    | some key =>
      if seen.contains key then none
      else (c.put? key value).bind fun c => ofMembers? c (key :: seen) rest

/-- Sets keys to values in order; there may be fewer values than keys. -/
def ofItems? : Config → List Key → List Json → Option Config
  | c, _, [] => some c
  | _, [], _ :: _ => none
  | c, key :: keys, value :: rest => (c.put? key value).bind fun c => ofItems? c keys rest

/-- The configuration that a JSON value describes. -/
def ofJson? : Json → Option Config
  | .object members => ofMembers? {} [] members
  | .array items => ofItems? {} Key.all items
  | _ => none

/-- Reads a configuration. -/
def read? (text : String) : Option Config := (Json.read? text).bind ofJson?

end Config
end RustFlow
