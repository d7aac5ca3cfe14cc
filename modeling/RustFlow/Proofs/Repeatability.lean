/-
# Type resolution is repeatable

Resolving a written type interns the composites in it, one after the other, and may fail on a
part after others were interned.  What it finds depends on the structs and enums of the arena
and on nothing else that can change: a composite is interned at most once, so a second
resolution finds what the first one left.

The relation behind this is `Extends`: forms other than structs and enums were added at the
end.  A computation `Repeats` if it only extends the arena and, run again in any extension of
the arena it left, gives the same result and changes nothing.  Interning a composite repeats,
and so does one repeating computation after another, since the second leaves an extension of
what the first left.
-/

import RustFlow.Proofs.Coverage

namespace RustFlow

open Attempt Ast

namespace Arena

variable {a b c : Arena} {f : TypeForm} {t : TypeId}

/-! ### Arenas with more composites -/

/-- An arena and one with more forms at the end, none of them a struct or an enum.  Layouts may
differ. -/
def Extends (a b : Arena) : Prop :=
  ∃ new : List TypeForm, a.forms ++ new = b.forms ∧ ∀ f ∈ new, f.isNamed = false

theorem Extends.enlarged (h : Extends a b) : Enlarged a { b with layouts := a.layouts } := ⟨h, rfl⟩

theorem Extends.refl (a : Arena) : Extends a a := (Enlarged.refl a).forms

theorem Extends.trans (hab : Extends a b) (hbc : Extends b c) : Extends a c := by
  have hbc' : Enlarged { b with layouts := a.layouts } { c with layouts := a.layouts } := ⟨hbc, rfl⟩
  exact (hab.enlarged.trans hbc').forms

theorem Extends.lookup (h : Extends a b) (hf : a.lookup f = some t) : b.lookup f = some t := by
  obtain ⟨new, hforms, -⟩ := h
  exact lookup_mono ⟨new, hforms⟩ hf

theorem Extends.findNamed_eq (h : Extends a b) (name : String) (owner : UnitId) :
    b.findNamed name owner = a.findNamed name owner := by
  have hlookup {f : TypeForm} (hf : f.isNamed = true) : b.lookup f = a.lookup f :=
    h.enlarged.lookup_eq hf
  rw [findNamed, findNamed, findStruct, findStruct, findEnum, findEnum, hlookup rfl, hlookup rfl]

theorem upward_extends : Upward Extends :=
  ⟨.refl, .trans, fun a _ hf => (enlarged_intern a hf).forms⟩

/-! ### Computations that repeat -/

/-- A computation that extends the arena and finds everything in place when it is run again. -/
structure Repeats {α : Type} (m : Attempt Arena α) : Prop where
  rises : Rises Extends m
  again : ∀ a b, Extends (m a).2 b → m b = ((m a).1, b)

namespace Repeats

variable {α β : Type} {m : Attempt Arena α}

theorem pure (v : α) : Repeats (Pure.pure v) := ⟨upward_extends.rises_pure v, fun _ _ _ => rfl⟩

theorem bind {next : α → Attempt Arena β} (hm : Repeats m) (hnext : ∀ v, Repeats (next v)) :
    Repeats (m >>= next) := by
  refine ⟨upward_extends.rises_bind hm.rises fun v => (hnext v).rises, fun a b hab => ?_⟩
  have hfirst := hm.again a b
  rw [bind_run] at hab ⊢
  rw [bind_run]
  rcases hrun : m a with ⟨e | v, a'⟩
  · rw [hrun] at hab hfirst
    rw [hfirst hab]
  · rw [hrun] at hab hfirst
    rw [hfirst (((hnext v).rises a').trans hab)]
    exact (hnext v).again a' b hab

theorem intern (hf : f.isNamed = false) : Repeats (modifyGet fun a => a.intern f) := by
  refine ⟨fun a => upward_extends.intern a hf, fun a b hab => ?_⟩
  have hthere : b.lookup f = some (a.intern f).1 := hab.lookup (lookup_intern a f)
  rw [modifyGet_run, intern_of_lookup hthere]
  rfl

theorem tuple (ts : List TypeId) : Repeats (modifyGet fun a => a.tuple ts) := by
  cases ts with
  | nil => exact pure TypeId.unit
  | cons t ts => exact intern rfl

end Repeats

/-! ### Resolution -/

variable (scope : Scope)

/-- The type of a path is read off the struct or enum of its last name, and nothing is
interned. -/
theorem exists_resolvePath_eq (p : Ast.Path) : ∃ outcome : Option TypeId → Except Error TypeId,
    ∀ a, scope.resolvePath p a = (outcome (a.findNamed p.last.name scope.owner), a) := by
  unfold Scope.resolvePath
  simp only [bind_run, get_run]
  generalize (if p.isPlain = true then TypeId.primitive? p.last.name else none) = fixed
  cases fixed with
  | some t => exact ⟨fun _ => .ok t, fun a => rfl⟩
  | none =>
    dsimp only
    split
    · exact ⟨fun _ => .ok _, fun a => rfl⟩
    · split
      · exact ⟨fun _ => .ok _, fun a => rfl⟩
      · refine ⟨fun found => found.elim
          (if scope.strict then .error (.unresolvedType p.text (scope.locate p.pos))
            else .ok .unknown) .ok, fun a => ?_⟩
        cases a.findNamed p.last.name scope.owner with
        | some t => rfl
        | none => cases scope.strict <;> rfl

theorem repeats_resolvePath (p : Ast.Path) : Repeats (scope.resolvePath p) := by
  refine ⟨upward_extends.rises_resolvePath scope p, fun a b hab => ?_⟩
  obtain ⟨outcome, hrun⟩ := exists_resolvePath_eq scope p
  rw [hrun] at hab ⊢
  rw [hrun, hab.findNamed_eq]

mutual

theorem repeats_resolve : ∀ t : TypeExpr, Repeats (scope.resolve t)
  | .paren t => by
    exact repeats_resolve t
  | .tuple ts => by
    exact (repeats_resolveAll ts).bind Repeats.tuple
  | .array t length => by
    refine (repeats_resolve t).bind fun e => ?_
    cases length with
    | some n => exact .intern rfl
    | none => exact .pure _
  | .pointer _ t => by
    exact (repeats_resolve t).bind fun _ => .intern rfl
  | .reference _ t => by
    exact (repeats_resolve t).bind fun _ => .intern rfl
  | .path p => by
    simp only [Scope.resolve]
    split
    · exact .pure _
    · exact repeats_resolvePath scope p
  | .bareBound _ => by
    exact .pure _
  | .other => by
    exact .pure _

theorem repeats_resolveAll : ∀ ts : List TypeExpr, Repeats (scope.resolveAll ts)
  | [] => by
    exact .pure _
  | t :: ts => by
    refine (repeats_resolve t).bind fun _ => ?_
    exact (repeats_resolveAll ts).bind fun _ => .pure _

end

theorem repeats_resolveResult (result : Option TypeAnn) :
    Repeats (scope.resolveResult result) := by
  cases result with
  | none => exact .pure _
  | some type => exact repeats_resolve scope type.type

/-! ### Calls that leave names alone -/

/-- Whether a call resets the arena or declares a struct or an enum. -/
def Op.affectsNames : Op → Bool
  | intern f => f.isNamed
  | declareStruct _ _ | declareEnum _ _ | reset => true
  | primitive _ | pointer _ _ | reference _ _ | array _ _ | tuple _ | defineStruct _ _
  | defineEnum _ _ _ | resolve _ _ | resolveResult _ _ => false

/-- **The step:** such calls apart, a call extends the arena, whatever handles it is given. -/
theorem Op.extends_run (op : Op) (hop : op.affectsNames = false) (a : Arena) :
    Extends a (op.run a) := by
  cases op with
  | primitive => exact .refl a
  | intern f => exact upward_extends.intern a hop
  | pointer | reference | array => exact upward_extends.intern a rfl
  | tuple ts => exact upward_extends.rises_tuple ts a
  | declareStruct | declareEnum | reset => cases hop
  | defineStruct => exact Extends.refl a
  | defineEnum t names shapes =>
    simp only [Op.run, Arena.defineEnum]
    split <;> exact Extends.refl a
  | resolve scope type => exact upward_extends.rises_resolve scope type a
  | resolveResult scope result => exact upward_extends.rises_resolveResult scope result a

theorem extends_runEach {ops : List Op} (hops : ∀ op ∈ ops, op.affectsNames = false) (a : Arena) :
    Extends a (runEach ops a) := by
  induction ops generalizing a with
  | nil => exact .refl a
  | cons op ops ih =>
    obtain ⟨hop, hrest⟩ := List.forall_mem_cons.1 hops
    exact (op.extends_run hop a).trans (ih hrest (op.run a))

/-- **Type resolution is repeatable.**  Resolving a written type, or a written result type,
appends forms and leaves layouts as they are, also if it fails.  After any calls that neither
reset the arena nor declare a struct or an enum, none included, resolving it again gives the
same type or the same error and leaves the arena as it is. -/
theorem resolve_repeatable (a : Arena) {ops : List Op}
    (hops : ∀ op ∈ ops, op.affectsNames = false) :
    (∀ (scope : Scope) (type : Ast.TypeExpr),
      a.forms <+: (scope.resolve type a).2.forms ∧ (scope.resolve type a).2.layouts = a.layouts ∧
      scope.resolve type (runEach ops (scope.resolve type a).2) =
        ((scope.resolve type a).1, runEach ops (scope.resolve type a).2)) ∧
    (∀ (scope : Scope) (result : Option Ast.TypeAnn),
      a.forms <+: (scope.resolveResult result a).2.forms ∧
      (scope.resolveResult result a).2.layouts = a.layouts ∧
      scope.resolveResult result (runEach ops (scope.resolveResult result a).2) =
        ((scope.resolveResult result a).1, runEach ops (scope.resolveResult result a).2)) := by
  refine ⟨fun scope type => ⟨?_, ?_, ?_⟩, fun scope result => ⟨?_, ?_, ?_⟩⟩
  · exact upward_prefix.rises_resolve scope type a
  · exact (upward_enlarged.rises_resolve scope type a).layouts
  · exact (repeats_resolve scope type).again a _ (extends_runEach hops _)
  · exact upward_prefix.rises_resolveResult scope result a
  · exact (upward_enlarged.rises_resolveResult scope result a).layouts
  · exact (repeats_resolveResult scope result).again a _ (extends_runEach hops _)

/-- A pair of a composite and a type that is not declared. -/
def halfKnown : TypeExpr :=
  let path (name : String) : TypeExpr :=
    .path ⟨.start, false, false, [], ⟨name, false⟩, name⟩
  .tuple [.pointer true (.array (path "i32") (some 3)), path "Missing"]

def emptyScope : Scope := ⟨⟨0⟩, none, [], true, "a.rs"⟩

/-- Calls that give layouts and intern composites, over handles that are not live too. -/
def otherCalls : List Op :=
  [.defineStruct ⟨19⟩ [⟨"x", .bool⟩], .reference ⟨40⟩ false, .intern (.tuple []),
    .resolve ⟨⟨0⟩, none, ["T"], true, "b.rs"⟩ (.reference true halfKnown)]

theorem resolve_repeatable_halfKnown :
    (∀ op ∈ otherCalls, op.affectsNames = false) ∧
    (emptyScope.resolve halfKnown empty).1 = .error (.unresolvedType "Missing" ⟨"a.rs", .start⟩) ∧
    (emptyScope.resolve halfKnown empty).2.size = 21 ∧
    (runEach otherCalls (emptyScope.resolve halfKnown empty).2).size = 23 ∧
    emptyScope.resolve halfKnown (runEach otherCalls (emptyScope.resolve halfKnown empty).2) =
      (.error (.unresolvedType "Missing" ⟨"a.rs", .start⟩),
        runEach otherCalls (emptyScope.resolve halfKnown empty).2) := by
  have hops : ∀ op ∈ otherCalls, op.affectsNames = false := by decide
  refine ⟨hops, rfl, by decide, by decide, ?_⟩
  exact ((resolve_repeatable empty hops).1 _ halfKnown).2.2

end Arena
end RustFlow
