/-
# Strict and lenient builds

A file is assembled with strict or with lenient names.  Where the strict assembly reports
no missing name, neither as the error that ended it nor among its diagnostics, the lenient
one does the same in every respect; and the lenient one never reports a missing name
(`build_lenient`).

The step is one item (`Lenient.isolate`): its two computations differ only past a missing
name, which the strict assembly then reports.  Reports are never taken back, so a missing
name stays in sight until the end of the file.
-/

import RustFlow.Proofs.FailFast
import RustFlow.Proofs.Leniency

namespace RustFlow

open Attempt Program Ast

/-- Whether a report is about a name that no type carries. -/
def Diagnostic.isUnresolved (d : Diagnostic) : Bool := d.error.isUnresolved

namespace Assembly

variable {α : Type} {f : FileSetting} {p q : Program} {m m' : Attempt Program Unit}

/-- No missing name was reported. -/
def Clear (p : Program) : Prop := ∀ d ∈ p.diagnostics, d.isUnresolved = false

/-- No missing name was reported, nor was one the end. -/
def ClearRun (out : Except Error Unit × Program) : Prop := Resolved out.1 ∧ Clear out.2

theorem Clear.of_diagnostics (hp : Clear p) (h : q.diagnostics = p.diagnostics) : Clear q := by
  rw [Clear, h]
  exact hp

theorem Clear.addDiagnostic (hp : Clear p) {d : Diagnostic} (hd : d.isUnresolved = false) :
    Clear (p.addDiagnostic d) := by
  intro d' hd'
  rcases List.mem_append.1 hd' with hd' | hd'
  · exact hp d' hd'
  · rw [List.mem_singleton.1 hd']
    exact hd

theorem not_clear_addDiagnostic {d : Diagnostic} (hd : d.isUnresolved = true) :
    ¬ Clear (p.addDiagnostic d) := by
  intro hclear
  have hfalse := hclear d (List.mem_append_right _ (List.mem_singleton.2 rfl))
  rw [hd] at hfalse
  cases hfalse

/-- The outcomes of a strict and of a lenient assembly. -/
inductive Parted : Except Error Unit × Program → Except Error Unit × Program → Prop where
  | same {out : Except Error Unit × Program} : ClearRun out → Parted out out
  | missing {out out' : Except Error Unit × Program} : ¬ ClearRun out → ClearRun out' →
      Parted out out'

theorem Parted.clear {out out' : Except Error Unit × Program} (h : Parted out out') :
    ClearRun out' := by
  cases h with
  | same h => exact h
  | missing _ h => exact h

/-- The second assembly is the first one with lenient names. -/
structure Lenient (m m' : Attempt Program Unit) : Prop where
  /-- Reports are never taken back. -/
  keeps : ∀ p, p.diagnostics ⊆ (m p).2.diagnostics
  parted : ∀ p, Clear p → Parted (m p) (m' p)

theorem Lenient.bind {n n' : Unit → Attempt Program Unit} (hm : Lenient m m')
    (hn : Lenient (n ()) (n' ())) : Lenient (m >>= n) (m' >>= n') := by
  refine ⟨fun p => ?_, fun p hp => ?_⟩
  · have hkeeps := hm.keeps p
    rw [bind_run]
    generalize m p = out at hkeeps
    obtain ⟨e | _, q⟩ := out
    · exact hkeeps
    · exact List.Subset.trans hkeeps (hn.keeps q)
  · have hparted := hm.parted p hp
    rw [bind_run, bind_run]
    generalize m p = out at hparted
    generalize m' p = out' at hparted
    cases hparted with
    | same h =>
      obtain ⟨e | _, q⟩ := out
      · exact .same h
      · exact hn.parted q h.2
    | missing hnot h =>
      -- the strict run keeps its report, and the lenient run stays clear
      refine .missing (fun hclear => hnot ?_) ?_
      · obtain ⟨e | _, q⟩ := out
        · exact hclear
        · exact ⟨resolved_ok _, fun d hd => hclear.2 d (hn.keeps q hd)⟩
      · obtain ⟨e | _, q⟩ := out'
        · exact h
        · exact (hn.parted q h.2).clear

/-! ### Items -/

/-- What `isolate` makes of an outcome: a failure is returned or reported. -/
theorem isolate_cases (unit : UnitId) (item : String) (m : Attempt Program Unit) (p : Program) :
    (∃ q, m p = (.ok (), q) ∧ isolate f unit item m p = (.ok (), q)) ∨
    ∃ e q, m p = (.error e, q) ∧
      (isolate f unit item m p = (.error e, q) ∨
        isolate f unit item m p = (.ok (), q.addDiagnostic ⟨q.unitName unit, item, e⟩)) := by
  unfold isolate
  rcases m p with ⟨e | _, q⟩
  · refine .inr ⟨e, q, rfl, ?_⟩
    dsimp only
    split
    · exact .inl rfl
    · exact .inr rfl
  · exact .inl ⟨q, rfl, rfl⟩

theorem diagnostics_isolate (hquiet : Quiet m) (unit : UnitId) (item : String) (p : Program) :
    p.diagnostics ⊆ (isolate f unit item m p).2.diagnostics := by
  rw [← hquiet p]
  rcases isolate_cases (f := f) unit item m p with ⟨q, hm, h⟩ | ⟨e, q, hm, h | h⟩ <;> rw [hm, h]
  · exact List.Subset.refl _
  · exact List.Subset.refl _
  · exact List.subset_append_left _ _

theorem clearRun_isolate (hquiet : Quiet m) (hm : Resolved (m p).1) (hp : Clear p) (unit : UnitId)
    (item : String) : ClearRun (isolate f unit item m p) := by
  have hq : Clear (m p).2 := hp.of_diagnostics (hquiet p)
  rcases isolate_cases (f := f) unit item m p with ⟨q, hrun, h⟩ | ⟨e, q, hrun, h | h⟩ <;>
    rw [hrun] at hm hq <;> rw [h]
  · exact ⟨resolved_ok _, hq⟩
  · exact ⟨hm, hq⟩
  · exact ⟨resolved_ok _, hq.addDiagnostic (hm e rfl)⟩

/-- **The step of assembly.**  A missing name is reported by the strict assembly. -/
theorem Lenient.isolate {f f' : FileSetting} (hff : f.config.failFast = f'.config.failFast)
    (hm : Softens m m') (hquiet : Quiet m) (hquiet' : Quiet m') (unit : UnitId) (item : String) :
    Lenient (isolate f unit item m) (isolate f' unit item m') := by
  refine ⟨diagnostics_isolate hquiet unit item, fun p hp => ?_⟩
  have hsoft := hm p
  have hclear := clearRun_isolate (f := f') hquiet' hsoft.resolved hp unit item
  cases hout : m p with
  | mk result after =>
  rw [hout] at hsoft
  generalize hout' : m' p = out' at hsoft
  cases hsoft with
  | same h =>
    have hsame : Assembly.isolate f unit item m p = Assembly.isolate f' unit item m' p := by
      unfold Assembly.isolate
      rw [hout, hout', hff]
    rw [hsame]
    exact .same hclear
  | @missing e _ _ he h =>
    refine .missing (fun hstrict => ?_) hclear
    rcases isolate_cases (f := f) unit item m p with
      ⟨q, hrun, -⟩ | ⟨e', q, hrun, h | h⟩ <;> rw [hout] at hrun <;> cases hrun
    · rw [h] at hstrict
      rw [hstrict.1 e rfl] at he
      cases he
    · rw [h] at hstrict
      exact not_clear_addDiagnostic (d := ⟨_, _, e⟩) he hstrict.2

theorem softens_resolveFields (s : Scope) (i : Nat) (ds : List FieldDecl) :
    Softens (resolveFields (s.strictly true) i ds) (resolveFields (s.strictly false) i ds) := by
  induction ds generalizing i with
  | nil => exact softens_pure _
  | cons d ds ih =>
    exact (s.softens_resolve d.type.type).bind fun _ => (ih (i + 1)).bind fun _ => softens_pure _

theorem softens_resolveShape (s : Scope) (fields : Ast.Fields) :
    Softens (resolveShape (s.strictly true) fields) (resolveShape (s.strictly false) fields) := by
  cases fields with
  | unit => exact softens_pure _
  | positional ds => exact (softens_resolveFields s 0 ds).bind fun _ => softens_pure _
  | named ds => exact (softens_resolveFields s 0 ds).bind fun _ => softens_pure _

theorem softens_resolveShapes (s : Scope) (vs : List VariantDecl) :
    Softens (resolveShapes (s.strictly true) vs) (resolveShapes (s.strictly false) vs) := by
  induction vs with
  | nil => exact softens_pure _
  | cons v vs ih =>
    exact (softens_resolveShape s v.fields).bind fun _ => ih.bind fun _ => softens_pure _

theorem softens_onArena {m m' : Attempt Arena α} (h : Softens m m') :
    Softens (onArena m) (onArena m') := h.zoom _ _

/-- The configuration with strict or lenient names. -/
def strictly (config : Config) (b : Bool) : Config := { config with strictTypes := b }

theorem scopeOf_strictly (f : FileSetting) (config : Config) (self : Option (TypeId × List String))
    (b : Bool) :
    (f.under (strictly config b)).scopeOf self = ((f.under config).scopeOf self).strictly b := by
  cases self <;> rfl

theorem softens_resolveEnum (f : FileSetting) (config : Config) (t : TypeId)
    (generics : List String) (variants : List VariantDecl) :
    Softens (resolveEnum (f.under (strictly config true)) t generics variants)
      (resolveEnum (f.under (strictly config false)) t generics variants) := by
  refine (softens_onArena (softens_resolveShapes
    (((f.under config).scope.withSelf t).withGenerics generics) variants)).bind fun shapes =>
      softens_get.bind fun p => ?_
  unfold Arena.defineEnum
  by_cases hcount : (variants.map VariantDecl.name).length = shapes.length
  · rw [if_pos hcount]
    exact softens_onArena (softens_of_ok fun _ => ⟨⟨⟩, rfl⟩)
  · rw [if_neg hcount]
    exact softens_throw rfl

theorem uniform_lenient (config : Config) : Uniform fun m =>
    Lenient (m (strictly config true)) (m (strictly config false)) where
  skip := ⟨fun _ _ hd => hd, fun _ hp => .same ⟨resolved_ok _, hp⟩⟩
  start _ := ⟨fun _ _ hd => hd, fun _ hp => .same ⟨resolved_ok _, hp⟩⟩
  bind hm hn := hm.bind hn
  get h := ⟨fun p => (h p).keeps p, fun p hp => (h p).parted p hp⟩
  declare f kind form name pos := by
    refine .isolate rfl ?_ (quiet_get fun q => ?_) (quiet_get fun q => ?_) f.module name
    · refine softens_get.bind fun p => softens_ite (softens_throw rfl) ?_
      exact softens_of_ok fun _ => ⟨⟨⟩, rfl⟩
    all_goals
      split
      · rfl
      · rfl
  struct f t unit name generics decls := by
    refine .isolate rfl ?_ (quiet_resolveStruct _ t unit generics decls)
      (quiet_resolveStruct _ t unit generics decls) unit name
    exact (softens_onArena (softens_resolveFields
      (((f.under config).scope.withSelf t).withGenerics generics) 0 decls)).bind
        fun _ => (softens_modify _).bind fun _ => softens_onArena (softens_modify _)
  enum f t unit name generics variants :=
    .isolate rfl (softens_resolveEnum f config t generics variants)
      (quiet_resolveEnum _ t generics variants) (quiet_resolveEnum _ t generics variants) unit name
  const f self unit name pos type := by
    simp only [scopeOf_strictly]
    exact .isolate rfl ((softens_onArena (Scope.softens_resolve _ type.type)).bind fun _ =>
      softens_modify _) ((quiet_onArena _).bind fun _ => quiet_modifyUnit unit _)
      ((quiet_onArena _).bind fun _ => quiet_modifyUnit unit _) unit name
  function f self unit fn := by
    simp only [scopeOf_strictly]
    exact .isolate rfl ((softens_onArena ((((f.under config).scopeOf self).withGenerics
      fn.generics).softens_lowerFunction config true false unit fn)).bind fun _ => softens_modify _)
      ((quiet_onArena _).bind fun _ => quiet_modifyUnit unit _)
      ((quiet_onArena _).bind fun _ => quiet_modifyUnit unit _) unit fn.name
  refuse f self unit item what pos := by
    simp only [scopeOf_strictly]
    exact .isolate rfl (Scope.softens_refuse _ what pos) (quiet_throw _) (quiet_throw _) unit item

theorem lenient_assemble (config : Config) (file : String) (items : List Item) :
    Lenient (assemble { config with strictTypes := true } file items)
      (assemble { config with strictTypes := false } file items) :=
  (uniform_lenient config).assemble file items

end Assembly

/-- Whether a build reports a missing name: as the error that ended it, or among its
diagnostics. -/
def reportsUnresolved : Except BuildError Program → Bool
  | .ok p => p.diagnostics.any Diagnostic.isUnresolved
  | .error (.lowering e) => e.isUnresolved
  | .error _ => false

namespace Program

open Assembly

/-- **Lenient builds differ only past a missing name.**  With lenient names no build reports
a missing name; and where the strict build reports none, the lenient build is the same. -/
theorem build_lenient (config : Config) (file source : String)
    (parse : String → Option (List Ast.Item)) :
    reportsUnresolved (build { config with strictTypes := false } file source parse) = false ∧
    (reportsUnresolved (build { config with strictTypes := true } file source parse) = false →
      build { config with strictTypes := false } file source parse =
        build { config with strictTypes := true } file source parse) := by
  simp only [build, addSource]
  cases parse source with
  | none => exact ⟨rfl, fun _ => rfl⟩
  | some items =>
    have hparted := (lenient_assemble config file items).parted .empty fun d hd => by cases hd
    have hfailed (e : Error) (q : Program)
        (h : assemble { config with strictTypes := true } file items .empty = (.error e, q)) :
        q.diagnostics = [] := diagnostics_of_failed h
    dsimp only
    generalize assemble { config with strictTypes := true } file items .empty = out at hparted hfailed
    generalize assemble { config with strictTypes := false } file items .empty = out' at hparted
    have hlenient := hparted.clear
    refine ⟨?_, fun hstrict => ?_⟩
    · obtain ⟨e | _, q⟩ := out'
      · exact hlenient.1 e rfl
      · exact List.any_eq_false.2 fun d hd => by rw [hlenient.2 d hd]; exact Bool.false_ne_true
    · cases hparted with
      | same _ => rfl
      | missing hnot _ =>
        refine absurd ?_ hnot
        obtain ⟨e | _, q⟩ := out
        · refine ⟨resolved_error hstrict, fun d hd => ?_⟩
          rw [hfailed e q rfl] at hd
          cases hd
        · exact ⟨resolved_ok _, fun d hd => Bool.eq_false_iff.2 (List.any_eq_false.1 hstrict d hd)⟩

/-- A file with a failure that is no missing name is built in the same way, and one with
missing names in a type and in a literal is built without a report if names are lenient. -/
theorem build_lenient_missingNames :
    ((build {} "a.rs" "struct P { x: i32 } fn f(p: &P) -> i32 { p.x } fn g() -> P {}").toOption.map
        fun p => p.diagnostics.map Diagnostic.item) = some ["g"] ∧
    build { strictTypes := false } "a.rs"
        "struct P { x: i32 } fn f(p: &P) -> i32 { p.x } fn g() -> P {}" =
      build {} "a.rs" "struct P { x: i32 } fn f(p: &P) -> i32 { p.x } fn g() -> P {}" ∧
    reportsUnresolved (build {} "a.rs" "fn f(q: Q) {} fn g() { Q { x: 1 }; }") = true ∧
    reportsUnresolved
      (build { strictTypes := false } "a.rs" "fn f(q: Q) {} fn g() { Q { x: 1 }; }") = false := by
  refine ⟨by decide +kernel, ?_, by decide +kernel, ?_⟩
  · have hstrict : reportsUnresolved (build {} "a.rs"
        "struct P { x: i32 } fn f(p: &P) -> i32 { p.x } fn g() -> P {}") = false := by decide +kernel
    exact (build_lenient {} "a.rs" _ _).2 hstrict
  · exact (build_lenient {} "a.rs" _ _).1

end Program

end RustFlow
