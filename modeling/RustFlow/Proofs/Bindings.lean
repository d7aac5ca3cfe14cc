/-
# Binding a pattern and listing its bindings

A pattern is read twice in the same order: once for the variables it binds, once to record
them with their types.  The types come from four places: what is behind a reference, the
fields of a struct, the elements of a tuple, nothing at all.  The elements of a tuple pattern
are bound in pairs with the types of a list, and none is passed over because the list has as
many types as there are elements, whether or not the value is a tuple of that many
(`Arena.length_elementTypes`).  Hence what is recorded is an entry for each listed variable,
one after the other, in front of what was there before (`Locals.Recorded`); and which types
they get does not depend on that.

The last entry of a name is the one that is found.
-/

import Mathlib.Data.List.Induction
import RustFlow.Lowering.Binding

namespace RustFlow

/-- The last variable of a name that a pattern binds. -/
def Pattern.lastBinding? (p : Pattern) (name : String) : Option Variable :=
  (p.bindings.filter fun v => v.name == name).getLast?

theorem Arena.length_elementTypes (a : Arena) (type : TypeId) (count : Nat) :
    (a.elementTypes type count).length = count := by
  unfold elementTypes
  split
  · split
    · assumption
    · exact List.length_replicate
  · exact List.length_replicate

namespace Locals

/-- What is recorded of a variable of a type. -/
def entry (v : Variable × TypeId) : String × Local := (v.1.name, ⟨v.2, v.1.mutable⟩)

/-- These variables are recorded one after the other, each with some type. -/
def Recorded (vs : List Variable) (f : Locals → Locals) : Prop :=
  ∃ typed : List (Variable × TypeId), typed.map Prod.fst = vs ∧
    ∀ l, f l = (typed.map entry).reverse ++ l

theorem Recorded.none : Recorded [] fun l => l := ⟨[], rfl, fun _ => rfl⟩

theorem Recorded.one (v : Variable) (type : TypeId) : Recorded [v] fun l => l.bind v type :=
  ⟨[(v, type)], rfl, fun _ => rfl⟩

theorem Recorded.comp {vs ws : List Variable} {f g : Locals → Locals} (hf : Recorded vs f)
    (hg : Recorded ws g) : Recorded (vs ++ ws) fun l => g (f l) := by
  obtain ⟨typed, rfl, hf⟩ := hf
  obtain ⟨typed', rfl, hg⟩ := hg
  refine ⟨typed ++ typed', List.map_append, fun l => ?_⟩
  show g (f l) = _
  rw [hf, hg, List.map_append, List.reverse_append, List.append_assoc]

section Patterns

variable (a : Arena)

mutual

/-- **Binding a pattern records the variables that it lists**, in that order. -/
theorem recorded_bindPattern : ∀ (p : Pattern) (type : TypeId),
    Recorded p.bindings (bindPattern a p type)
  | .binding v, type => by
    simpa only [bindPattern, Pattern.bindings] using Recorded.one v type
  | .reference _ p, type => by
    simpa only [bindPattern, Pattern.bindings] using recorded_bindPattern p (a.pointee type)
  | .struct name own fields _, _ => by
    simpa only [bindPattern, Pattern.bindings] using
      recorded_bindFields (a.patternFields own name) fields
  | .tuple ps, type => by
    simpa only [bindPattern, Pattern.bindings] using
      recorded_bindElements ps _ (a.length_elementTypes type ps.length)
  | .tupleStruct _ ps, _ | .alternatives ps, _ => by
    simpa only [bindPattern, Pattern.bindings, bindAll_eq_bindElements] using
      recorded_bindElements ps _ List.length_replicate
  | .path _, _ | .literal _, _ | .range _ _ _, _ | .rest, _ | .wildcard, _ => by
    simpa only [bindPattern, Pattern.bindings] using Recorded.none

theorem recorded_bindFields (declared : List Field) : ∀ fields : List FieldPattern,
    Recorded (Pattern.bindingsOfFields fields) (bindFields a declared fields)
  | [] => by
    simpa only [bindFields, Pattern.bindingsOfFields] using Recorded.none
  | .mk name p :: fields => by
    simp only [bindFields, Pattern.bindingsOfFields]
    exact (recorded_bindPattern p _).comp (recorded_bindFields declared fields)

-- A pattern without a type would bind nothing, so the lists have to be of one length.
theorem recorded_bindElements : ∀ (ps : List Pattern) (types : List TypeId),
    types.length = ps.length → Recorded (Pattern.bindingsOfAll ps) (bindElements a ps types)
  | [], types, _ => by
    cases types <;> simpa only [bindElements, Pattern.bindingsOfAll] using Recorded.none
  | p :: ps, [], hlen => by
    cases hlen
  | p :: ps, type :: types, hlen => by
    simp only [bindElements, Pattern.bindingsOfAll]
    exact (recorded_bindPattern p type).comp (recorded_bindElements ps types (Nat.succ.inj hlen))

end

end Patterns

/-! ### Finding what is recorded -/

/-- The last entry of a name is found first. -/
theorem lookup_reverse_entries (name : String) (typed : List (Variable × TypeId)) :
    (typed.map entry).reverse.lookup name =
      (typed.filter fun v => v.1.name == name).getLast?.map fun v => (entry v).2 := by
  induction typed using List.reverseRecOn with
  | nil => rfl
  | append_singleton typed v ih =>
    rw [List.map_append, List.reverse_append, List.filter_append]
    by_cases hname : v.1.name = name
    · simp [entry, hname]
    · have hkey : (name == (entry v).1) = false := beq_false_of_ne (Ne.symm hname)
      have hout : [v].filter (fun v => v.1.name == name) = [] := by simp [hname]
      rw [hout, List.append_nil, ← ih]
      show (entry v :: (typed.map entry).reverse).lookup name = _
      rw [List.lookup_cons, hkey]

/-- Recording variables changes what is found for their names and for no other. -/
theorem Recorded.lookup {vs : List Variable} {f : Locals → Locals} (hf : Recorded vs f)
    (name : String) :
    (name ∉ vs.map Variable.name → ∀ l, (f l).lookup name = l.lookup name) ∧
    (name ∈ vs.map Variable.name → ∃ v t, (vs.filter fun v => v.name == name).getLast? = some v ∧
      ∀ l, (f l).lookup name = some ⟨t, v.mutable⟩) := by
  obtain ⟨typed, rfl, hf⟩ := hf
  have hlast : ((typed.map Prod.fst).filter fun v => v.name == name).getLast? =
      (typed.filter fun v => v.1.name == name).getLast?.map Prod.fst := by
    rw [List.filter_map, List.getLast?_map]
    rfl
  have hfound (l : Locals) : (f l).lookup name =
      ((typed.filter fun v => v.1.name == name).getLast?.map fun v => (entry v).2).or
        (l.lookup name) := by
    rw [hf, List.lookup_append, lookup_reverse_entries]
  rw [hlast]
  constructor
  · intro hname l
    have hnil : typed.filter (fun v => v.1.name == name) = [] := by
      refine List.filter_eq_nil_iff.2 fun v hv heq => hname ?_
      exact List.mem_map.2 ⟨v.1, List.mem_map_of_mem hv, eq_of_beq heq⟩
    rw [hfound, hnil]
    rfl
  · intro hname
    obtain ⟨v, hv, heq⟩ := List.mem_map.1 hname
    obtain ⟨w, hw, rfl⟩ := List.mem_map.1 hv
    have hne : typed.filter (fun v => v.1.name == name) ≠ [] :=
      List.ne_nil_of_mem (List.mem_filter.2 ⟨hw, beq_iff_eq.2 heq⟩)
    rw [List.getLast?_eq_some_getLast hne] at hfound ⊢
    exact ⟨_, _, rfl, hfound⟩

end Locals

namespace Context

/-- **Binding a pattern changes what its bindings list says.**  The arena stays as it is, and
so does every variable that the pattern does not bind.  A variable that it binds has the
mutability of its last binding afterwards, and a type that does not depend on what was
recorded before. -/
theorem bindPattern_bindings (c : Context) (p : Pattern) (type : TypeId) :
    (c.bindPattern p type).arena = c.arena ∧
    (∀ name, name ∉ p.bindings.map Variable.name →
      (c.bindPattern p type).local? name = c.local? name) ∧
    ∀ name ∈ p.bindings.map Variable.name, ∃ v t, p.lastBinding? name = some v ∧
      ∀ d : Context, d.arena = c.arena →
        (d.bindPattern p type).local? name = some ⟨t, v.mutable⟩ := by
  have hrec := Locals.recorded_bindPattern c.arena p type
  refine ⟨rfl, fun name hname => (hrec.lookup name).1 hname c.locals, fun name hname => ?_⟩
  obtain ⟨v, t, hlast, hfound⟩ := (hrec.lookup name).2 hname
  refine ⟨v, t, hlast, fun d harena => ?_⟩
  rw [local?, bindPattern, harena]
  exact hfound d.locals

/-- `(x, y, mut x)` against a pair: the arities differ, and the last binding of `x` counts. -/
example :
    let (pair, arena) := Arena.empty.tuple [.i32, .bool]
    let p : Pattern := .tuple [.binding ⟨"x", false⟩, .binding ⟨"y", false⟩, .binding ⟨"x", true⟩]
    ((Context.mk arena []).bindPattern p pair).local? "x" = some ⟨.unknown, true⟩ := by
  rfl

end Context

end RustFlow
