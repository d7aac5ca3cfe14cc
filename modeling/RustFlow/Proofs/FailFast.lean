/-
# Ending at the first failure

A configuration may ask assembly to end at the first failure instead of recording it.
It is consulted in one place, where an item has failed, so two runs that differ in it
alone do the same until then.  `Stopped` relates such runs: either nothing is reported
and they are the same, or the run that ends does so with the error of the first report
of the other.  It holds of each item (`stopped_isolate`), so of files (`stopped_assemble`).

The way from items to files is the same for any relation between runs that differ in the
configuration (`Uniform.assemble`).
-/

import RustFlow.Program.Build
import RustFlow.Proofs.Attempt

namespace RustFlow

open Program Attempt Ast

namespace FileSetting

/-- The setting under another configuration. -/
def under (f : FileSetting) (c : Config) : FileSetting := { f with config := c }

/-- The scope of a file, or of an `impl` block in it. -/
def scopeOf (f : FileSetting) : Option (TypeId × List String) → Scope
  | none => f.scope
  | some (t, generics) => (f.scope.withSelf t).withGenerics generics

end FileSetting

namespace Assembly

/-! ### Runs that differ in the configuration -/

/-- A property of runs, taken under every configuration, that holds of what is done for one
item and is kept where runs are put together. -/
structure Uniform (R : (Config → Attempt Program Unit) → Prop) : Prop where
  skip : R fun _ => pure ()
  start : ∀ u, R fun _ => modify fun p => p.addUnit u
  bind : ∀ {m n : Config → Attempt Program Unit}, R m → R n → R fun c => m c >>= fun _ => n c
  get : ∀ {n : Program → Config → Attempt Program Unit}, (∀ p, R (n p)) →
    R fun c => get >>= fun p => n p c
  declare : ∀ (f : FileSetting) kind form name pos, R fun c => declareType (f.under c) kind form name pos
  struct : ∀ (f : FileSetting) t unit name generics decls, R fun c =>
    isolate (f.under c) unit name (resolveStruct (f.under c) t unit generics decls)
  enum : ∀ (f : FileSetting) t unit name generics variants, R fun c =>
    isolate (f.under c) unit name (resolveEnum (f.under c) t generics variants)
  const : ∀ (f : FileSetting) self unit name pos type, R fun c =>
    resolveConst (f.under c) ((f.under c).scopeOf self) unit name pos type
  function : ∀ (f : FileSetting) self unit fn, R fun c =>
    lowerFunction (f.under c) ((f.under c).scopeOf self) unit fn
  refuse : ∀ (f : FileSetting) self unit item what pos, R fun c =>
    isolate (f.under c) unit item (((f.under c).scopeOf self).refuse what pos)

namespace Uniform

variable {R : (Config → Attempt Program Unit) → Prop}

theorem each {α : Type} (h : Uniform R) {m : α → Config → Attempt Program Unit} (hm : ∀ x, R (m x))
    (xs : List α) : R fun c => Assembly.each (fun x => m x c) xs := by
  induction xs with
  | nil => exact h.skip
  | cons x xs ih => exact h.bind (hm x) ih

theorem declareItem (h : Uniform R) (f : FileSetting) (item : Item) :
    R fun c => Assembly.declareItem (f.under c) item := by
  cases item with
  | struct name pos => exact h.declare f .struct (.struct name f.module) name pos
  | enum name pos => exact h.declare f .enum (.enum name f.module) name pos
  | other pos what name => exact h.refuse f none f.module name what pos
  | _ => exact h.skip

theorem resolveItem (h : Uniform R) (f : FileSetting) (item : Item) :
    R fun c => Assembly.resolveItem (f.under c) item := by
  have hfound (c : Config) : registered? (f.under c) = registered? f := rfl
  cases item with
  | struct name pos generics fields =>
    refine h.get fun p => ?_
    simp only [hfound]
    cases registered? f p name pos with
    | none => exact h.skip
    | some found => exact h.struct f _ _ _ _ _
  | enum name pos generics variants =>
    refine h.get fun p => ?_
    simp only [hfound]
    cases registered? f p name pos with
    | none => exact h.skip
    | some found => exact h.enum f _ _ _ _ _
  | const name pos type => exact h.const f none f.module name pos type
  | _ => exact h.skip

theorem lowerMember (h : Uniform R) (f : FileSetting) (self : Option (TypeId × List String))
    (unit : UnitId) (member : Member) :
    R fun c => Assembly.lowerMember (f.under c) ((f.under c).scopeOf self) unit member := by
  cases member with
  | method fn => exact h.function f self unit fn
  | const name pos type => exact h.const f self unit name pos type
  | other pos => exact h.refuse f self unit _ _ pos

theorem lowerItem (h : Uniform R) (f : FileSetting) (item : Item) :
    R fun c => Assembly.lowerItem (f.under c) item := by
  cases item with
  | function fn => exact h.function f none f.module fn
  | impl generics self members =>
    refine h.get fun p => ?_
    have htarget (c : Config) : implTarget? (f.under c) p self.type = implTarget? f p self.type := by
      cases self.type <;> rfl
    simp only [htarget]
    cases implTarget? f p self.type with
    | none => exact h.refuse f none f.module _ _ _
    | some target => exact h.each (h.lowerMember f (some (target.1, generics)) target.2.id) members
  | _ => exact h.skip

/-- **What holds of items holds of files.** -/
theorem assemble (h : Uniform R) (file : String) (items : List Item) :
    R fun c => Program.assemble c file items :=
  h.get fun p =>
    let f : FileSetting := ⟨{}, file, p.nextUnit⟩
    h.bind (h.start (.ofModule p.nextUnit (moduleName file) ⟨file, .start⟩)) (h.bind (h.each (h.declareItem f) items)
      (h.bind (h.each (h.resolveItem f) items) (h.each (h.lowerItem f) items)))

end Uniform

/-! ### Runs that end -/

variable {α : Type} {f : FileSetting} {p q : Program} {m m' : Attempt Program Unit}
  {out out' : Except Error Unit × Program}

/-- Two outcomes from a program: that of a run which records failures, and that of the run
which ends at the first failure. -/
inductive Stopped (p : Program) :
    Except Error Unit × Program → Except Error Unit × Program → Prop where
  /-- Nothing is reported. -/
  | silent {q : Program} : q.diagnostics = p.diagnostics → Stopped p (.ok (), q) (.ok (), q)
  /-- The first new report is where the other run ends, with no report of its own. -/
  | reported {q r : Program} {d : Diagnostic} {ds : List Diagnostic} :
      q.diagnostics = p.diagnostics ++ d :: ds → r.diagnostics = p.diagnostics →
      Stopped p (.ok (), q) (.error d.error, r)

theorem Stopped.recorded (h : Stopped p out out') :
    ∃ q ds, out = (.ok (), q) ∧ q.diagnostics = p.diagnostics ++ ds := by
  cases h with
  | @silent q hq => exact ⟨q, [], rfl, hq.trans (List.append_nil _).symm⟩
  | @reported q r d ds hq _ => exact ⟨q, d :: ds, rfl, hq⟩

theorem Stopped.bind {n n' : Unit → Attempt Program Unit} (h : Stopped p (m p) (m' p))
    (hn : ∀ q, Stopped q (n () q) (n' () q)) : Stopped p ((m >>= n) p) ((m' >>= n') p) := by
  rw [bind_run, bind_run]
  generalize m p = out at h
  generalize m' p = out' at h
  cases h with
  | @silent q hq =>
    have hnext := hn q
    dsimp only
    generalize n () q = next at hnext
    generalize n' () q = next' at hnext
    cases hnext with
    | silent hr => exact .silent (hr.trans hq)
    | reported hr hend => exact .reported (by rw [hr, hq]) (hend.trans hq)
  | @reported q r d ds hq hend =>
    -- what is reported later stands behind the report that ended the other run
    obtain ⟨q', ds', hrun, hds'⟩ := (hn q).recorded
    dsimp only
    rw [hrun]
    have hreports : q'.diagnostics = p.diagnostics ++ d :: (ds ++ ds') := by
      rw [hds', hq, List.append_assoc, List.cons_append]
    exact .reported hreports hend

/-! ### What reports nothing -/

/-- A computation that leaves the reports as they are. -/
def Quiet (m : Attempt Program α) : Prop := ∀ p, (m p).2.diagnostics = p.diagnostics

theorem Quiet.bind {β : Type} {m : Attempt Program α} {n : α → Attempt Program β} (hm : Quiet m)
    (hn : ∀ a, Quiet (n a)) : Quiet (m >>= n) := by
  intro p
  have hp := hm p
  rw [bind_run]
  generalize m p = out at hp
  obtain ⟨e | a, q⟩ := out
  · exact hp
  · exact (hn a q).trans hp

theorem quiet_get {n : Program → Attempt Program α} (h : ∀ p, (n p p).2.diagnostics = p.diagnostics) :
    Quiet (get >>= n) := h

theorem quiet_throw (e : Error) : Quiet (throw e : Attempt Program α) := fun _ => rfl

theorem quiet_onArena (m : Attempt Arena α) : Quiet (onArena m) := fun _ => rfl

theorem quiet_modifyUnit (unit : UnitId) (g : SourceUnit → SourceUnit) :
    Quiet (modify fun p => p.modifyUnit unit g) := fun _ => rfl

theorem quiet_resolveStruct (f : FileSetting) (t : TypeId) (unit : UnitId) (generics : List String)
    (decls : List FieldDecl) : Quiet (resolveStruct f t unit generics decls) :=
  (quiet_onArena _).bind fun _ => (quiet_modifyUnit unit _).bind fun _ => quiet_onArena _

theorem quiet_resolveEnum (f : FileSetting) (t : TypeId) (generics : List String)
    (variants : List VariantDecl) : Quiet (resolveEnum f t generics variants) := by
  refine (quiet_onArena _).bind fun shapes => quiet_get fun p => ?_
  cases p.arena.defineEnum t (variants.map VariantDecl.name) shapes with
  | ok arena => rfl
  | error e => rfl

/-! ### Items -/

/-- **The step of assembly.**  An item succeeds in both runs, or its failure is reported in
one and ends the other. -/
theorem stopped_isolate {f f' : FileSetting} (hf : f.config.failFast = false)
    (hf' : f'.config.failFast = true) (hm : Quiet m) (unit : UnitId) (item : String) (p : Program) :
    Stopped p (isolate f unit item m p) (isolate f' unit item m p) := by
  have hp := hm p
  unfold isolate
  generalize m p = out at hp
  obtain ⟨e | a, q⟩ := out
  · dsimp only
    rw [hf, hf']
    have hreport : (q.addDiagnostic ⟨q.unitName unit, item, e⟩).diagnostics =
        p.diagnostics ++ [⟨q.unitName unit, item, e⟩] := congrArg (· ++ [_]) hp
    exact .reported hreport hp
  · exact .silent hp

theorem uniform_stopped (config : Config) : Uniform fun m => ∀ p,
    Stopped p (m { config with failFast := false } p) (m { config with failFast := true } p) where
  skip _ := .silent rfl
  start _ _ := .silent rfl
  bind hm hn p := (hm p).bind hn
  get h p := h p p
  declare f kind form name pos := by
    refine stopped_isolate rfl rfl (quiet_get fun q => ?_) f.module name
    split
    · rfl
    · rfl
  struct f t unit name generics decls :=
    stopped_isolate rfl rfl (quiet_resolveStruct _ t unit generics decls) unit name
  enum f t unit name generics variants :=
    stopped_isolate rfl rfl (quiet_resolveEnum _ t generics variants) unit name
  const f self unit name pos type :=
    stopped_isolate rfl rfl ((quiet_onArena _).bind fun _ => quiet_modifyUnit unit _) unit name
  function f self unit fn :=
    stopped_isolate rfl rfl ((quiet_onArena _).bind fun _ => quiet_modifyUnit unit _) unit fn.name
  refuse f self unit item what pos := stopped_isolate rfl rfl (quiet_throw _) unit item

theorem stopped_assemble (config : Config) (file : String) (items : List Item) (p : Program) :
    Stopped p (assemble { config with failFast := false } file items p)
      (assemble { config with failFast := true } file items p) :=
  (uniform_stopped config).assemble file items p

theorem diagnostics_of_failed {config : Config} {file : String} {items : List Item} {e : Error}
    (h : assemble config file items p = (.error e, q)) : q.diagnostics = p.diagnostics := by
  have hstopped := stopped_assemble config file items p
  cases hff : config.failFast with
  | false =>
    rw [show { config with failFast := false } = config from hff ▸ rfl, h] at hstopped
    cases hstopped
  | true =>
    rw [show { config with failFast := true } = config from hff ▸ rfl, h] at hstopped
    generalize assemble { config with failFast := false } file items p = out at hstopped
    cases hstopped with
    | reported _ hend => exact hend

end Assembly

namespace Program

open Assembly

/-- **The first report decides.**  A file that parses is built if failures are recorded.  If
none was, ending at the first failure builds the same program; otherwise it gives the error of
the first report. -/
theorem build_failFast (config : Config) (file : String) {source : String} {items : List Ast.Item}
    {parse : String → Option (List Ast.Item)} (h : parse source = some items) :
    ∃ p, build { config with failFast := false } file source parse = .ok p ∧
      build { config with failFast := true } file source parse =
        match p.diagnostics with
        | [] => .ok p
        | d :: _ => .error (.lowering d.error) := by
  have hstopped := stopped_assemble config file items .empty
  simp only [build, addSource, h]
  generalize assemble { config with failFast := false } file items .empty = out at hstopped
  generalize assemble { config with failFast := true } file items .empty = out' at hstopped
  cases hstopped with
  | @silent q hq => exact ⟨q, rfl, by rw [hq]; rfl⟩
  | @reported q r d ds hq _ => exact ⟨q, rfl, by rw [hq]; rfl⟩

/-- A file in which a method and, before it, a constant fail: the constant is the one that
counts, since constants are resolved in an earlier pass. -/
def twoFailures : String := "struct P; impl P { fn f() -> i32 {} } const C: Q = 1;"

theorem build_failFast_twoFailures :
    (∃ p, build {} "a.rs" twoFailures = .ok p ∧ p.diagnostics.map Diagnostic.item = ["C", "f"]) ∧
    build { failFast := true } "a.rs" twoFailures =
      .error (.lowering (.unresolvedType "Q" ⟨"a.rs", ⟨1, 48⟩⟩)) := by
  have hparsed : (Grammar.readFile? twoFailures).isSome = true := by decide +kernel
  obtain ⟨items, hitems⟩ := Option.isSome_iff_exists.1 hparsed
  obtain ⟨p, hp, hends⟩ := build_failFast {} "a.rs" hitems
  have hreports : (build {} "a.rs" twoFailures).toOption.map Program.diagnostics =
      some [⟨"a", "C", .unresolvedType "Q" ⟨"a.rs", ⟨1, 48⟩⟩⟩,
        ⟨"P", "f", .missingReturnValue "f" ⟨"a.rs", ⟨1, 34⟩⟩⟩] := by decide +kernel
  rw [hp] at hreports
  have hreports := Option.some.inj hreports
  rw [hreports] at hends
  exact ⟨⟨p, hp, by rw [hreports]; rfl⟩, hends⟩

end Program

end RustFlow
