/-
# No handle dangles

The types of a program are kept as indices into its arena: in composite types and
layouts, in globals and units, in signatures, and in the terms and patterns of graphs at
any depth.  `Program.handles` lists them all.

Lowering in an arena agrees with itself there, so every type in a graph it makes
corresponds to itself, and is live (`Cfg.Alike.live`).  Assembly adds to a unit what was
resolved or lowered in the arena of the time, and arenas only grow; hence each item keeps
the program intact (`Intact`), and so do files (`Assembled.intact`).
-/

import RustFlow.Proofs.Walks

namespace RustFlow

open Arena Attempt Ast

/-! ### The types of terms and graphs -/

mutual

/-- The types in a term, its own first. -/
def Term.handles : Term → List TypeId
  | .mk form type _ => type :: form.handles

def TermForm.handles : TermForm → List TypeId
  | .literal _ | .var _ | .path _ | .macroCall _ _ | .exhausted => []
  | .binary _ l r => l.handles ++ r.handles
  | .unary _ e | .borrow _ e | .cast e _ | .tupleField e _ | .field e _ | .arrayRepeat e _ => e.handles
  | .range a b _ => handlesOfOption a ++ handlesOfOption b
  | .declare p _ init => p.handles ++ handlesOfOption init
  | .assign target value => target.handles ++ value.handles
  | .test p e => p.handles ++ e.handles
  | .pattern p => p.handles
  | .index b i => b.handles ++ i.handles
  | .call _ _ _ vs | .structLit _ vs | .enumLit _ _ _ vs | .tuple vs | .array vs => handlesOfTerms vs

/-- The types in a pattern: those that struct patterns show, and those of its terms. -/
def Pattern.handles : Pattern → List TypeId
  | .binding _ | .path _ | .rest | .wildcard => []
  | .reference _ p => p.handles
  | .struct _ type fields _ => type :: handlesOfFields fields
  | .tupleStruct _ ps | .tuple ps | .alternatives ps => handlesOfPatterns ps
  | .literal v => v.handles
  | .range a b _ => handlesOfOption a ++ handlesOfOption b

def handlesOfOption : Option Term → List TypeId
  | none => []
  | some t => t.handles

def handlesOfTerms : List Term → List TypeId
  | [] => []
  | t :: ts => t.handles ++ handlesOfTerms ts

def handlesOfPatterns : List Pattern → List TypeId
  | [] => []
  | p :: ps => p.handles ++ handlesOfPatterns ps

def FieldPattern.handles : FieldPattern → List TypeId
  | .mk _ p => p.handles

def handlesOfFields : List FieldPattern → List TypeId
  | [] => []
  | f :: fs => f.handles ++ handlesOfFields fs

end

def Statement.handles (s : Statement) : List TypeId := handlesOfOption s.term?

def Graph.handles (g : Graph) : List TypeId := g.slots.flatMap fun s => s.toList.flatMap Statement.handles

/-- The type of a parameter and those in its pattern. -/
def Parameter.handles (p : Parameter) : List TypeId := p.type :: p.pattern.handles

def Signature.handles (s : Signature) : List TypeId :=
  s.returnType :: s.params.flatMap Parameter.handles

def Cfg.handles (c : Cfg) : List TypeId := c.signature.handles ++ c.graph.handles

section Alike

variable {R : TypeId → TypeId → Prop}

/-- Alike terms hold related types in the same places. -/
theorem TermForm.Alike.handles {f f' : TermForm} (h : f.Alike R f') :
    List.Forall₂ R f.handles f'.handles := by
  apply @TermForm.Alike.rec R (fun t t' _ => List.Forall₂ R t.handles t'.handles)
    (fun f f' _ => List.Forall₂ R f.handles f'.handles)
    (fun p p' _ => List.Forall₂ R p.handles p'.handles)
    (fun f f' _ => List.Forall₂ R f.handles f'.handles)
    (fun o o' _ => List.Forall₂ R (handlesOfOption o) (handlesOfOption o'))
    (fun ts ts' _ => List.Forall₂ R (handlesOfTerms ts) (handlesOfTerms ts'))
    (fun fs fs' _ => List.Forall₂ R (handlesOfFields fs) (handlesOfFields fs'))
    (fun ps ps' _ => List.Forall₂ R (handlesOfPatterns ps) (handlesOfPatterns ps'))
  case t => exact h
  all_goals intros
  all_goals grind [Term.handles, TermForm.handles, Pattern.handles, FieldPattern.handles,
    handlesOfOption, handlesOfTerms, handlesOfPatterns, handlesOfFields, forall₂_append,
    List.Forall₂.nil, List.Forall₂.cons]

theorem Term.Alike.handles {t t' : Term} (h : t.Alike R t') : List.Forall₂ R t.handles t'.handles := by
  cases h with
  | mk pos hf hst =>
    rw [Term.handles, Term.handles]
    exact .cons hst hf.handles

theorem Pattern.Alike.handles {p p' : Pattern} (h : p.Alike R p') :
    List.Forall₂ R p.handles p'.handles := by
  have hform := (TermForm.Alike.pattern h).handles
  rwa [TermForm.handles, TermForm.handles] at hform

theorem Statement.Alike.handles {s s' : Statement} (h : s.Alike R s') :
    List.Forall₂ R s.handles s'.handles := by
  have hoption {o o' : Option Term} (ho : Option.Rel (Term.Alike R) o o') :
      List.Forall₂ R (handlesOfOption o) (handlesOfOption o') := by
    cases ho with
    | none => exact .nil
    | some h => exact h.handles
  obtain ⟨kind, pos⟩ := s
  obtain ⟨kind', pos'⟩ := s'
  obtain ⟨hkind, -⟩ := h
  cases hkind with
  | expression h => exact hoption (.some h)
  | noOp => exact hoption .none
  | ret => exact hoption .none
  | returnValue h => exact hoption (.some h)
  | writtenReturn h => exact hoption h

theorem Graph.Alike.handles {g g' : Graph} (h : g.Alike R g') :
    List.Forall₂ R g.handles g'.handles := by
  refine List.rel_flatMap h.slots fun slot slot' hslot => ?_
  cases hslot with
  | none => exact .nil
  | some h =>
    simp only [Option.toList_some, List.flatMap_singleton]
    exact h.handles

theorem Signature.Alike.handles {sig sig' : Signature} (h : sig.Alike R sig') :
    List.Forall₂ R sig.handles sig'.handles :=
  .cons h.returnType (List.rel_flatMap h.params fun _ _ hp => .cons hp.type hp.pattern.handles)

theorem Cfg.Alike.handles {c c' : Cfg} (h : c.Alike R c') : List.Forall₂ R c.handles c'.handles :=
  List.rel_append h.signature.handles h.graph.handles

end Alike

/-- A graph that corresponds to another in an arena holds live types only. -/
theorem Cfg.Alike.live {a b : Arena} {c c' : Cfg} (h : c.Alike (Same a b) c') :
    ∀ t ∈ c.handles, a.Live t := fun t ht => by
  obtain ⟨u, -, htu⟩ := forall₂_left h.handles ht
  exact htu.live_left

/-! ### The types of programs -/

/-- The types in a unit: its own, those of its globals, and those in its graphs. -/
def SourceUnit.handles (u : SourceUnit) : List TypeId :=
  u.type.toList ++ u.globals.map Global.type ++ u.cfgs.flatMap Cfg.handles

/-- The types that types are built over, and those with layouts and of members. -/
def Arena.handles (a : Arena) : List TypeId :=
  a.forms.flatMap TypeForm.parts ++ a.layouts.flatMap fun l => l.1 :: l.2.types

/-- All types that a program keeps. -/
def Program.handles (p : Program) : List TypeId :=
  p.arena.handles ++ p.units.flatMap SourceUnit.handles

theorem Arena.Sound.live {a : Arena} (h : a.Sound) : ∀ t ∈ a.handles, a.Live t := by
  refine List.forall_mem_append.2 ⟨fun t ht => ?_, fun t ht => ?_⟩
  · obtain ⟨f, hf, ht⟩ := List.mem_flatMap.1 ht
    obtain ⟨i, hi⟩ := List.mem_iff_getElem?.1 hf
    exact Nat.lt_trans (h.parts_lt i f hi t ht) (List.getElem?_eq_some_iff.1 hi).1
  · obtain ⟨⟨s, l⟩, hl, ht⟩ := List.mem_flatMap.1 ht
    rcases List.mem_cons.1 ht with rfl | ht
    · obtain ⟨f, hf, -⟩ := h.named t l hl
      exact live_of_forms hf
    · exact h.members s l hl t ht

namespace SourceUnit

variable {a : Arena} {u : SourceUnit}

/-- A unit whose types are live in an arena. -/
def Live (a : Arena) (u : SourceUnit) : Prop := ∀ t ∈ u.handles, a.Live t

theorem live_iff : u.Live a ↔ (∀ t, u.type = some t → a.Live t) ∧ (∀ g ∈ u.globals, a.Live g.type) ∧
    ∀ c ∈ u.cfgs, ∀ t ∈ c.handles, a.Live t := by
  rw [Live, handles, List.forall_mem_append, List.forall_mem_append, and_assoc]
  refine and_congr ?_ (and_congr List.forall_mem_map ⟨fun h c hc t ht => ?_, fun h t ht => ?_⟩)
  · simp only [Option.mem_toList]
  · exact h t (List.mem_flatMap.2 ⟨c, hc, ht⟩)
  · obtain ⟨c, hc, ht⟩ := List.mem_flatMap.1 ht
    exact h c hc t ht

theorem Live.addGlobal (h : u.Live a) {g : Global} (hg : a.Live g.type) : (u.addGlobal g).Live a := by
  obtain ⟨htype, hglobals, hcfgs⟩ := live_iff.1 h
  unfold SourceUnit.addGlobal
  split
  · refine live_iff.2 ⟨htype, fun g' hg' => ?_, hcfgs⟩
    obtain ⟨x, hx, rfl⟩ := List.mem_map.1 hg'
    split
    · exact hg
    · exact hglobals x hx
  · refine live_iff.2 ⟨htype, fun g' hg' => ?_, hcfgs⟩
    rcases List.mem_append.1 hg' with hg' | hg'
    · exact hglobals g' hg'
    · exact List.mem_singleton.1 hg' ▸ hg

theorem Live.addGlobals {gs : List Global} (h : u.Live a) (hgs : ∀ g ∈ gs, a.Live g.type) :
    (gs.foldl SourceUnit.addGlobal u).Live a := by
  induction gs generalizing u with
  | nil => exact h
  | cons g gs ih =>
    obtain ⟨hg, hgs⟩ := List.forall_mem_cons.1 hgs
    exact ih (h.addGlobal hg) hgs

theorem Live.addCfg (h : u.Live a) {c : Cfg} (hc : ∀ t ∈ c.handles, a.Live t) : (u.addCfg c).Live a := by
  obtain ⟨htype, hglobals, hcfgs⟩ := live_iff.1 h
  exact live_iff.2 ⟨htype, hglobals, List.forall_mem_append.2 ⟨hcfgs, List.forall_mem_singleton.2 hc⟩⟩

end SourceUnit

namespace Program

variable {p : Program}

/-- A program whose arena is as interning builds it and whose units hold live types. -/
structure Intact (p : Program) : Prop where
  arena : p.arena.Sound
  units : ∀ u ∈ p.units, u.Live p.arena

theorem intact_empty : empty.Intact := ⟨Arena.sound_empty, fun _ hu => (List.not_mem_nil hu).elim⟩

/-- **No handle of an intact program dangles.** -/
theorem Intact.live (h : p.Intact) : ∀ t ∈ p.handles, p.arena.Live t := by
  refine List.forall_mem_append.2 ⟨h.arena.live, fun t ht => ?_⟩
  obtain ⟨u, hu, ht⟩ := List.mem_flatMap.1 ht
  exact h.units u hu t ht

theorem Intact.withArena (h : p.Intact) {a : Arena} (ha : a.Sound) (hforms : p.arena.forms <+: a.forms) :
    { p with arena := a }.Intact :=
  ⟨ha, fun u hu t ht => (h.units u hu t ht).mono hforms⟩

theorem Intact.addDiagnostic (h : p.Intact) (d : Diagnostic) : (p.addDiagnostic d).Intact :=
  ⟨h.arena, h.units⟩

theorem Intact.addUnit (h : p.Intact) {u : SourceUnit} (hu : u.Live p.arena) : (p.addUnit u).Intact :=
  ⟨h.arena, List.forall_mem_append.2 ⟨h.units, List.forall_mem_singleton.2 hu⟩⟩

theorem Intact.modifyUnit (h : p.Intact) {g : SourceUnit → SourceUnit}
    (hg : ∀ u, u.Live p.arena → (g u).Live p.arena) (id : UnitId) : (p.modifyUnit id g).Intact := by
  refine ⟨h.arena, fun u hu => ?_⟩
  obtain ⟨i, hi⟩ := List.mem_iff_getElem?.1 hu
  rw [getElem?_modifyUnit, Option.map_eq_some_iff] at hi
  obtain ⟨v, hv, rfl⟩ := hi
  have hlive := h.units v (List.mem_of_getElem? hv)
  split
  · exact hg v hlive
  · exact hlive

end Program

namespace Assembly

open Program

variable {α : Type} {f : FileSetting} {p : Program} {scope : Scope} {t : TypeId}

theorem intact_isolate {m : Attempt Program Unit} (h : (m p).2.Intact) (unit : UnitId)
    (item : String) : (isolate f unit item m p).2.Intact := by
  unfold isolate
  generalize m p = out at h
  obtain ⟨e | _, q⟩ := out
  · dsimp only
    split
    · exact h
    · exact h.addDiagnostic _
  · exact h

/-- What is resolved or lowered in the arena of a program is live there. -/
theorem intact_onArena {m : Attempt Arena α} {V : (TypeId → TypeId → Prop) → α → α → Prop}
    (hp : p.Intact) (h : Agree (.same p.arena) V m m p.arena p.arena) {next : α → Attempt Program Unit}
    (hnext : ∀ v a, Grown p.arena a → V (Same a a) v v → { p with arena := a }.Intact →
      (next v { p with arena := a }).2.Intact) :
    ((onArena m >>= next) p).2.Intact := by
  rw [bind_run, onArena, zoom_run]
  rcases hm : m p.arena with ⟨e | v, a⟩
  · exact hp.withArena (h.grown hm).sound (h.grown hm).forms
  · exact hnext v a (h.grown hm) (h.value hm) (hp.withArena (h.grown hm).sound (h.grown hm).forms)

theorem intact_declareType (hp : p.Intact) (kind : UnitKind) {form : TypeForm}
    (hform : form.parts = []) (name : String) (pos : Position) :
    (declareType f kind form name pos p).2.Intact := by
  refine intact_isolate ?_ f.module name
  rw [registerType, bind_run, get_run]
  dsimp only
  split
  · exact hp
  · have hparts : ∀ t ∈ form.parts, p.arena.Live t := fun t ht => by
      rw [hform] at ht
      cases ht
    refine (hp.withArena (hp.arena.intern hparts) (prefix_intern _ _)).addUnit ?_
    refine SourceUnit.live_iff.2 ⟨fun t ht => ?_, fun _ hg => ?_, fun _ hc => ?_⟩
    · cases ht
      exact live_of_forms (forms_intern p.arena form)
    · cases hg
    · cases hc

theorem intact_declareItem (hp : p.Intact) (item : Item) : (declareItem f item p).2.Intact := by
  cases item with
  | struct name pos generics fields => exact intact_declareType hp .struct rfl name pos
  | enum name pos generics variants => exact intact_declareType hp .enum rfl name pos
  | other pos what name => exact intact_isolate hp f.module name
  | _ => exact hp

theorem intact_resolveStruct (hp : p.Intact) {name : String} {owner : UnitId}
    (ht : p.arena.findNamed name owner = some t) (unit : UnitId) (generics : List String)
    (decls : List FieldDecl) : (resolveStruct f t unit generics decls p).2.Intact := by
  obtain ⟨form, hform, hnamed⟩ := named_of_findNamed ht
  have hs := within_withSelf (f := f) (live_of_forms hform) generics
  refine intact_onArena hp (agree_resolveFields (hs.agrees hp.arena) (aligned_self hp.arena) 0 decls) ?_
  intro fields a ha hfields hq
  have hlive := live_of_fieldsAlike hfields
  have hglobals : ∀ g ∈ List.zipWith (fieldGlobal f) decls fields, a.Live g.type := by
    intro g hg
    rw [← List.map_uncurry_zip_eq_zipWith] at hg
    obtain ⟨⟨d, field⟩, hmem, rfl⟩ := List.mem_map.1 hg
    exact hlive _ (List.mem_map_of_mem (List.of_mem_zip hmem).2)
  have hunit := hq.modifyUnit (fun u hu => hu.addGlobals hglobals) unit
  exact hunit.withArena (ha.sound.setLayout (getElem?_mono ha.forms hform) hnamed hlive)
    (List.prefix_refl _)

theorem intact_resolveEnum (hp : p.Intact) {name : String} {owner : UnitId}
    (ht : p.arena.findNamed name owner = some t) (generics : List String)
    (variants : List VariantDecl) : (resolveEnum f t generics variants p).2.Intact := by
  obtain ⟨form, hform, hnamed⟩ := named_of_findNamed ht
  have hs := within_withSelf (f := f) (live_of_forms hform) generics
  refine intact_onArena hp (agree_resolveShapes (hs.agrees hp.arena) (aligned_self hp.arena) variants) ?_
  intro shapes a ha hshapes hq
  rw [bind_run, get_run]
  dsimp only [defineEnum]
  split
  · exact hq.withArena (ha.sound.setLayout (getElem?_mono ha.forms hform) hnamed
      (live_of_shapesAlike hshapes _)) (List.prefix_refl _)
  · exact hq

theorem intact_resolveConst (hp : p.Intact) (hs : scope.Within p.arena) (unit : UnitId)
    (name : String) (pos : Position) (type : TypeAnn) :
    (resolveConst f scope unit name pos type p).2.Intact := by
  refine intact_isolate ?_ unit name
  refine intact_onArena hp (agree_resolve (hs.agrees hp.arena) (aligned_self hp.arena) type.type) ?_
  intro t a _ ht hq
  exact hq.modifyUnit (fun u hu => hu.addGlobal ht.live_left) unit

theorem intact_resolveItem (hp : p.Intact) (item : Item) : (resolveItem f item p).2.Intact := by
  refine resolveItem_cases (motive := fun _ out => out.2.Intact) (fun _ => hp) ?_ ?_ ?_ item
  · intro name pos generics fields t u hu
    exact intact_isolate (intact_resolveStruct hp (findNamed_of_registered hu) _ _ _) u.id name
  · intro name pos generics variants t u hu
    exact intact_isolate (intact_resolveEnum hp (findNamed_of_registered hu) _ _) u.id name
  · exact intact_resolveConst hp (within_scope _) f.module

theorem intact_lowerFunction (hp : p.Intact) (hs : scope.Within p.arena) (unit : UnitId)
    (fn : FnDecl) : (lowerFunction f scope unit fn p).2.Intact := by
  refine intact_isolate ?_ unit fn.name
  refine intact_onArena hp (agree_lowerFunction ((hs.agrees hp.arena).withGenerics fn.generics)
    (aligned_self hp.arena) f.config unit rfl fn) ?_
  intro c a _ hc hq
  exact hq.modifyUnit (fun u hu => hu.addCfg hc.live) unit

theorem intact_lowerMember (hp : p.Intact) (hs : scope.Within p.arena) (unit : UnitId)
    (member : Member) : (lowerMember f scope unit member p).2.Intact := by
  cases member with
  | method fn => exact intact_lowerFunction hp hs unit fn
  | const name pos type => exact intact_resolveConst hp hs unit name pos type
  | other pos => exact intact_isolate hp unit _

/-- **The step of assembly.** -/
theorem intact_run (hp : p.Intact) (part : Part) : (part.run f p).2.Intact := by
  cases part with
  | declare item => exact intact_declareItem hp item
  | resolve item => exact intact_resolveItem hp item
  | function fn => exact intact_lowerFunction hp (within_scope _) f.module fn
  | member generics self member =>
    rw [Part.run, bind_run, get_run]
    dsimp only
    cases htarget : implTarget? f p self.type with
    | none => exact hp
    | some target =>
      rw [implTarget?_eq] at htarget
      obtain ⟨name, -, hdeclared⟩ := Option.bind_eq_some_iff.1 htarget
      exact intact_lowerMember hp (within_of_declared hdeclared generics) target.2.id member
  | refused self => exact intact_isolate hp f.module self.text

end Assembly

namespace Program

open Assembly

theorem Assembled.intact {p : Program} (h : Assembled p) : p.Intact := by
  induction h with
  | empty => exact intact_empty
  | @step p config file items hp ih =>
    rw [assemble_parts hp.indexed]
    refine each_invariant (fun part _ q hq => intact_run hq part) (ih.addUnit ?_)
    exact SourceUnit.live_iff.2 ⟨nofun, nofun, nofun⟩

/-- **No handle dangles.**  In every program that is built, from one file or from several, with
any configuration, each type that is kept anywhere is a live index of the arena. -/
theorem handles_live :
    (∀ config file source parse p, build config file source parse = .ok p →
      ∀ t ∈ p.handles, p.arena.Live t) ∧
    ∀ config read files parse p, buildFiles config read files parse = .ok p →
      ∀ t ∈ p.handles, p.arena.Live t :=
  ⟨fun _ _ _ _ _ hp => (Assembled.empty.addSource hp).intact.live,
    fun _ _ _ _ _ hp => (Assembled.empty.addFiles hp).intact.live⟩

/-- A file with nested struct patterns and a function that fails past a type it interned. -/
def nestedPatterns : String :=
  "struct P { x: &i32 } enum E { A { p: P } } fn f(e: E) { let E::A { p: P { x } } = e; } fn g(q: (P, Q)) {}"

theorem handles_live_nestedPatterns :
    (∃ p, build {} "a.rs" nestedPatterns = .ok p ∧
      (p.handles.length == 14 && p.diagnostics.length == 1) = true ∧
      ∀ t ∈ p.handles, p.arena.Live t) ∧
    ∃ p, buildFiles {} (fun _ => some "struct P(*mut P);") ["a.rs", "b.rs"] = .ok p ∧
      (p.handles.length == 10) = true ∧ ∀ t ∈ p.handles, p.arena.Live t := by
  obtain ⟨hbuild, hfiles⟩ := handles_live
  obtain ⟨p, hp, hsize⟩ := exists_of_any (x := build {} "a.rs" nestedPatterns)
    (P := fun p => p.handles.length == 14 && p.diagnostics.length == 1) (by decide +kernel)
  obtain ⟨q, hq, hsize'⟩ := exists_of_any
    (x := buildFiles {} (fun _ => some "struct P(*mut P);") ["a.rs", "b.rs"])
    (P := fun p => p.handles.length == 10) (by decide +kernel)
  exact ⟨⟨p, hp, hsize, hbuild _ _ _ _ p hp⟩, ⟨q, hq, hsize', hfiles _ _ _ _ q hq⟩⟩

end Program

end RustFlow
