/-
# Functions of a file do not influence each other

All functions of a file grow one arena, so the types in a graph have other indices if
other functions were lowered before it.  That is all that differs:

* `outcomes` lists what became of each function of a file, and the assembled program
  holds just that (`Logged`);
* what becomes of a function is a matter of where it stands, of the declarations of
  the file and of itself (`Logged.settled`, `agree_lower`).
-/

import RustFlow.Proofs.Accounting

namespace RustFlow

open Arena Program Attempt Ast

namespace Ast

def Member.functions (site : Site) : Member → List (Site × FnDecl)
  | .method fn => [(site, fn)]
  | _ => []

def Item.functions : Item → List (Site × FnDecl)
  | .function fn => [(.module, fn)]
  | .impl generics self members => members.flatMap (Member.functions (.impl generics self))
  | _ => []

/-- The functions and methods of a file with where they stand. -/
def functions (items : List Item) : List (Site × FnDecl) := items.flatMap Item.functions

end Ast

namespace Assembly

/-- What a pass logs, each time in the program that it had reached. -/
def eachLog {α : Type} (m : α → Attempt Program Unit) (log : α → Program → List FnOutcome) :
    List α → Program → List FnOutcome
  | [], _ => []
  | x :: xs, p => log x p ++ eachLog m log xs (m x p).2

def memberLog (f : FileSetting) (site : Site) (member : Member) (p : Program) : List FnOutcome :=
  (member.functions site).map fun (site, fn) => site.outcome f p fn

def itemLog (f : FileSetting) : Item → Program → List FnOutcome
  | .function fn, p => [Site.module.outcome f p fn]
  | .impl generics self members, p =>
    let site := Site.impl generics self
    match implTarget? f p self.type with
    | some (t, u) =>
      eachLog (lowerMember f ((f.scope.withSelf t).withGenerics generics) u.id) (memberLog f site)
        members p
    | none => members.flatMap fun m => memberLog f site m p
  | _, _ => []

/-- The program after the first two passes over a file. -/
def declared (f : FileSetting) (items : List Item) (p : Program) : Program :=
  let p := p.addUnit (.ofModule f.module (moduleName f.file) (f.locate .start))
  (each (resolveItem f) items (each (declareItem f) items p).2).2

/-- What became of each function of a file that is added to a program. -/
def outcomes (config : Config) (file : String) (items : List Item) (p : Program) :
    List FnOutcome :=
  let f : FileSetting := ⟨config, file, p.nextUnit⟩
  eachLog (lowerItem f) (itemLog f) items (declared f items p)

variable {f : FileSetting} {p q r : Program} {ds : List TypeDecl}

/-! ### Logs -/

/-- A program came from another by lowering functions with these outcomes.  Graphs are
added to their units in order, and errors are recorded. -/
structure Logged (f : FileSetting) (p : Program) (log : List FnOutcome) (q : Program) : Prop where
  kept : Kept p q
  grown : Grown p.arena q.arena
  diagnostics : p.diagnostics <+: q.diagnostics
  graphs : ∀ id, q.graphs id = p.graphs id ++ graphsOf id log
  errors : ∀ r ∈ log, ∀ e, r.result = .error e →
    ∃ d ∈ q.diagnostics, d.error = e ∧ d.unit = q.unitName r.unit
  /-- An outcome is that of the function in an arena that grew from the first. -/
  settled : ∀ r ∈ log, r.unit = r.site.unit f p ∧ ∃ a, Grown p.arena a ∧
    r.result = (r.site.lower f p r.fn a).1 ∧
    (r.site.lower f p r.fn a).2.forms <+: q.arena.forms

theorem Logged.silent (h : Kept p q) (ha : Grown p.arena q.arena)
    (hd : p.diagnostics <+: q.diagnostics) (hg : ∀ id, q.graphs id = p.graphs id) :
    Logged f p [] q :=
  ⟨h, ha, hd, fun id => (hg id).trans (List.append_nil _).symm,
    fun _ hr => (List.not_mem_nil hr).elim, fun _ hr => (List.not_mem_nil hr).elim⟩

theorem Logged.refl (h : p.Indexed) : Logged f p [] p :=
  .silent (.refl h.arena) (.refl h.arena) (List.prefix_refl _) fun _ => rfl

theorem logged_failed (h : p.Indexed) {a : Arena} (ha : Grown p.arena a) (d : Diagnostic) :
    Logged f p [] ({ p with arena := a }.addDiagnostic d) :=
  .silent (((Kept.refl h.arena).withArena ha.widened).addDiagnostic d) ha (List.prefix_append ..)
    fun _ => rfl

theorem unitName_of_kept (h : Kept p q) (id : UnitId) : q.unitName id = p.unitName id := by
  have hname (r : Program) : (r.unit? id).map SourceUnit.name =
      ((r.unit? id).map SourceUnit.bare).map SourceUnit.name := by
    rw [Option.map_map]
    rfl
  rw [unitName, unitName, hname, h.unit?, ← hname]

theorem implTarget_of_kept (h : Kept p q) (type : TypeExpr) :
    (implTarget? f q type).map (fun x => (x.1, x.2.id)) =
      (implTarget? f p type).map fun x => (x.1, x.2.id) := by
  rw [implTarget?_eq, implTarget?_eq]
  cases type.implName? with
  | none => rfl
  | some name =>
    have hids := congrArg (Option.map fun x : TypeId × SourceUnit => (x.1, x.2.id))
      (h.bare_declared? (f := f) name)
    rw [Option.map_map, Option.map_map] at hids
    exact hids

/-- What is known of the place of a function is kept. -/
theorem site_of_kept (h : Kept p q) (site : Site) :
    site.unit f q = site.unit f p ∧ ∀ fn, site.lower f q fn = site.lower f p fn := by
  cases site with
  | module => exact ⟨rfl, fun _ => rfl⟩
  | impl generics self =>
    have htarget := implTarget_of_kept (f := f) h self.type
    simp only [Site.unit, Site.lower]
    cases hp : implTarget? f p self.type with
    | none =>
      rw [hp, Option.map_none, Option.map_eq_none_iff] at htarget
      rw [htarget]
      exact ⟨rfl, fun _ => rfl⟩
    | some x =>
      rw [hp] at htarget
      obtain ⟨y, hq, hids⟩ := Option.map_eq_some_iff.1 htarget
      obtain ⟨htype, hid⟩ := Prod.mk.inj hids
      rw [hq]
      exact ⟨hid, fun fn => by dsimp only; rw [htype, hid]⟩

theorem Logged.trans {l l' : List FnOutcome} (h : Logged f p l q) (h' : Logged f q l' r) :
    Logged f p (l ++ l') r := by
  refine ⟨h.kept.trans h'.kept, h.grown.trans h'.grown, h.diagnostics.trans h'.diagnostics,
    fun id => ?_, fun o ho e he => ?_, fun o ho => ?_⟩
  · rw [h'.graphs, h.graphs, graphsOf_append, List.append_assoc]
  · rcases List.mem_append.1 ho with ho | ho
    · obtain ⟨d, hd, herror, hunit⟩ := h.errors o ho e he
      exact ⟨d, h'.diagnostics.subset hd, herror, hunit.trans (unitName_of_kept h'.kept _).symm⟩
    · exact h'.errors o ho e he
  · rcases List.mem_append.1 ho with ho | ho
    · obtain ⟨hunit, a, ha, hresult, hforms⟩ := h.settled o ho
      exact ⟨hunit, a, ha, hresult, hforms.trans h'.grown.forms⟩
    · obtain ⟨hunit, a, ha, hresult, hforms⟩ := h'.settled o ho
      obtain ⟨hsite, hlower⟩ := site_of_kept (f := f) h.kept o.site
      rw [hlower] at hresult hforms
      exact ⟨hunit.trans hsite, a, h.grown.trans ha, hresult, hforms⟩

/-- **The step of the third pass.**  A function is lowered at its site. -/
theorem logged_outcome (hff : f.config.failFast = false) (h : Catalogue f ds p) (part : Part)
    (hstands : part.Stands ds) {o : FnOutcome} (ho : part.outcome? f p = some o)
    (hsite : o.unit = o.site.unit f p) : Logged f p [o] (part.run f p).2 := by
  obtain ⟨u, hu, hname, -⟩ := h.unit_of_outcome hstands ho
  have hsettled {out : Except Error Cfg} {a : Arena} (hlowered : Lowered f p o out a) :
      ∀ r ∈ [o], r.unit = r.site.unit f p ∧ ∃ b, Grown p.arena b ∧
        r.result = (r.site.lower f p r.fn b).1 ∧
        (r.site.lower f p r.fn b).2.forms <+: a.forms := fun r hr => by
    cases List.mem_singleton.1 hr
    refine ⟨hsite, p.arena, .refl h.indexed.arena, ?_, ?_⟩
    · rw [hlowered.run]
      exact hlowered.result
    · simp only [hlowered.run, List.prefix_refl]
  rcases (settled_outcome h hstands ho).cases_of_record hff with
    happended | ⟨e, a, hlowered, hq⟩
  · have hsteps := happended.steps h.indexed ho (lt_of_unit? hu)
    obtain ⟨c, a, hlowered, hq⟩ := happended
    have hgraphs := hsteps.graphs
    rw [ho] at hgraphs
    rw [hq] at hgraphs ⊢
    refine ⟨((Kept.refl h.indexed.arena).withArena hlowered.grown.widened).modifyUnit
      (fun u => u.bare_addCfg c) o.unit, hlowered.grown, List.prefix_refl _, hgraphs,
      fun r hr e he => ?_, hsettled hlowered⟩
    cases List.mem_singleton.1 hr
    cases hlowered.result.symm.trans he
  · obtain ⟨hkept, hgrown, hdiagnostics, hgraphs, -⟩ :=
      logged_failed (f := f) h.indexed hlowered.grown ⟨(part.label f.file).1, (part.label f.file).2, e⟩
    rw [hq]
    refine ⟨hkept, hgrown, hdiagnostics, fun id => (hgraphs id).trans (congrArg _ ?_),
      fun r hr e' he => ?_, hsettled hlowered⟩
    · simp only [graphsOf, List.filterMap_cons, hlowered.result, Except.toOption, ite_self,
        List.filterMap_nil]
    · cases List.mem_singleton.1 hr
      cases hlowered.result.symm.trans he
      refine ⟨_, List.mem_append_right _ (List.mem_singleton_self _), rfl, ?_⟩
      rw [unitName_of_kept hkept, unitName, hu]
      exact hname.symm

theorem logged_member (hff : f.config.failFast = false) (h : Catalogue f ds p)
    (generics : List String) {self : TypeAnn} (hself : self.isFor ds = true) (m : Member) :
    Logged f p (memberLog f (.impl generics self) m p)
      ((Part.member generics self m).run f p).2 := by
  have hplain (hm : ∀ fn, m ≠ .method fn) :
      Logged f p [] ((Part.member generics self m).run f p).2 := by
    rcases (settled_member h generics hself m hm).cases_of_record hff with
      ⟨hamended, hedit⟩ | ⟨e, a, ha, hq⟩
    · refine .silent hamended.kept ?_ (hamended.diagnostics ▸ List.prefix_refl _) hamended.graphs
      generalize ((Part.member generics self m).run f p).2 = q at hedit
      cases hedit with
      | none => exact .refl h.indexed.arena
      | member _ _ ha => exact ha
    · exact hq ▸ logged_failed h.indexed ha _
  cases m with
  | method fn =>
    exact logged_outcome hff h (.member generics self (.method fn)) hself rfl rfl
  | const => exact hplain fun _ => nofun
  | other => exact hplain fun _ => nofun

/-- **The run of a pass**, from its steps. -/
theorem logged_each {α : Type} {m : α → Attempt Program Unit} {log : α → Program → List FnOutcome}
    (hm : ∀ x q, Kept p q → Logged f q (log x q) (m x q).2 ∧ (m x q).1 = .ok ()) (xs : List α)
    (h : Kept p q) (hq : q.Indexed) :
    Logged f q (eachLog m log xs q) (each m xs q).2 ∧ (each m xs q).1 = .ok () := by
  induction xs generalizing q with
  | nil => exact ⟨.refl hq, rfl⟩
  | cons x xs ih =>
    obtain ⟨hx, hok⟩ := hm x q h
    obtain ⟨hxs, hoks⟩ := ih (h.trans hx.kept) (hx.kept.indexed hq)
    have hrun : each m (x :: xs) q = each m xs (m x q).2 := by
      rw [each, bind_run]
      generalize m x q = out at hok
      obtain ⟨out, q'⟩ := out
      cases hok
      rfl
    rw [hrun]
    exact ⟨hx.trans hxs, hoks⟩

theorem logged_refusedImpl (hff : f.config.failFast = false) (hp : p.Indexed)
    {generics : List String} {self : TypeAnn} (htarget : implTarget? f p self.type = none)
    (members : List Member) :
    Logged f p (members.flatMap fun m => memberLog f (.impl generics self) m p)
      (isolate f f.module self.text (f.scope.refuse (.implFor self.text) self.pos) p).2 := by
  have hmem : ∀ r ∈ members.flatMap fun m => memberLog f (.impl generics self) m p,
      ∃ fn, r = (Site.impl generics self).outcome f p fn := fun r hr => by
    obtain ⟨m, -, hr⟩ := List.mem_flatMap.1 hr
    cases m with
    | method fn => exact ⟨fn, List.mem_singleton.1 hr⟩
    | _ => cases hr
  have hlower (fn : FnDecl) : (Site.impl generics self).lower f p fn =
      f.scope.refuse (.implFor self.text) self.pos := by simp only [Site.lower, htarget]
  have hunit : (Site.impl generics self).unit f p = f.module := by simp only [Site.unit, htarget]
  have hresult (fn : FnDecl) : ((Site.impl generics self).outcome f p fn).result =
      .error (.unsupported (.implFor self.text) (f.scope.locate self.pos)) := by
    simp only [Site.outcome, hlower]
    rfl
  rw [Scope.refuse, isolate_error hff self.text (throw_run _ p)]
  refine ⟨(Kept.refl hp.arena).addDiagnostic _, .refl hp.arena, List.prefix_append .., fun id => ?_,
    fun r hr e he => ?_, fun r hr => ?_⟩
  · have hnone : graphsOf id (members.flatMap fun m => memberLog f (.impl generics self) m p) = [] := by
      refine List.filterMap_eq_nil_iff.2 fun r hr => ?_
      obtain ⟨fn, rfl⟩ := hmem r hr
      rw [hresult]
      exact ite_self _
    rw [hnone, List.append_nil]
    rfl
  · obtain ⟨fn, rfl⟩ := hmem r hr
    rw [hresult] at he
    cases he
    refine ⟨_, List.mem_append_right _ (List.mem_singleton_self _), rfl, ?_⟩
    exact congrArg p.unitName hunit.symm
  · obtain ⟨fn, rfl⟩ := hmem r hr
    refine ⟨rfl, p.arena, .refl hp.arena, rfl, ?_⟩
    rw [show ((Site.impl generics self).outcome f p fn).site = .impl generics self from rfl, hlower]
    exact List.prefix_refl _

theorem logged_lowerItem (hff : f.config.failFast = false) (h : Catalogue f ds p) (i : Item) :
    Logged f p (itemLog f i p) (lowerItem f i p).2 ∧ (lowerItem f i p).1 = .ok () := by
  cases i with
  | function fn =>
    exact ⟨logged_outcome hff h (.function fn) trivial rfl rfl, ok_isolate hff ..⟩
  | impl generics self members =>
    rw [lowerItem, itemLog, bind_run, get_run]
    dsimp only
    cases htarget : implTarget? f p self.type with
    | some target =>
      have hself : self.isFor ds = true := by
        refine Decidable.byContradiction fun hself => ?_
        cases htarget.symm.trans (implTarget?_eq_none h hself)
      refine logged_each (fun m q hq => ?_) members (.refl h.indexed.arena) h.indexed
      have hrun := run_member htarget hq generics m
      rw [← hrun]
      exact ⟨logged_member hff (h.keep hq) generics hself m, ok_run hff ..⟩
    | none => exact ⟨logged_refusedImpl hff h.indexed htarget members, ok_isolate hff ..⟩
  | _ => exact ⟨.refl h.indexed, rfl⟩

/-! ### Files -/

theorem functions_eachLog {α : Type} {m : α → Attempt Program Unit}
    {log : α → Program → List FnOutcome} {fns : α → List (Site × FnDecl)}
    (h : ∀ x p, (log x p).map FnOutcome.function = fns x) (xs : List α) (p : Program) :
    (eachLog m log xs p).map FnOutcome.function = xs.flatMap fns := by
  induction xs generalizing p with
  | nil => rfl
  | cons x xs ih => rw [eachLog, List.map_append, h, ih, List.flatMap_cons]

theorem functions_memberLog (site : Site) (m : Member) (p : Program) :
    (memberLog f site m p).map FnOutcome.function = m.functions site := by
  cases m <;> rfl

theorem functions_itemLog (i : Item) (p : Program) :
    (itemLog f i p).map FnOutcome.function = i.functions := by
  cases i with
  | impl generics self members =>
    rw [itemLog]
    cases implTarget? f p self.type with
    | some target => exact functions_eachLog (functions_memberLog _) members p
    | none =>
      dsimp only
      rw [List.map_flatMap]
      simp only [functions_memberLog]
      rfl
  | _ => rfl

theorem assemble_run {config : Config} (hff : config.failFast = false) (file : String)
    (items : List Item) (p : Program) :
    assemble config file items p =
      each (lowerItem ⟨config, file, p.nextUnit⟩) items (declared ⟨config, file, p.nextUnit⟩ items p) := by
  unfold assemble declared
  rw [bind_run, get_run]
  dsimp only
  rw [bind_run, modify_run]
  dsimp only
  have hdeclare := ok_each (ok_declareItem (f := ⟨config, file, p.nextUnit⟩) hff) items
    (p.addUnit (.ofModule p.nextUnit (moduleName file) ⟨file, .start⟩))
  rw [bind_run]
  simp only [FileSetting.locate]
  generalize each (declareItem ⟨config, file, p.nextUnit⟩) items _ = out at hdeclare ⊢
  obtain ⟨out, q⟩ := out
  cases hdeclare
  have hresolve := ok_each (ok_resolveItem (f := ⟨config, file, p.nextUnit⟩) hff) items q
  dsimp only
  rw [bind_run]
  generalize each (resolveItem ⟨config, file, p.nextUnit⟩) items q = out at hresolve ⊢
  obtain ⟨out, q'⟩ := out
  cases hresolve
  rfl

theorem declared_eq {items items' : List Item}
    (h : Ast.declarations items = Ast.declarations items') (p : Program) :
    declared f items p = declared f items' p := by
  have hdeclare (q : Program) : each (declareItem f) items q = each (declareItem f) items' q := by
    rw [each_declarations (declareItem_code f) items, h, ← each_declarations (declareItem_code f)]
  have hresolve (q : Program) : each (resolveItem f) items q = each (resolveItem f) items' q := by
    rw [each_declarations (resolveItem_code f) items, h, ← each_declarations (resolveItem_code f)]
  simp only [declared, hdeclare, hresolve]

theorem Settled.graphs_eq {label : String × String} {part : Part} {out : Except Error Unit × Program}
    (h : Settled f label p (Steps f part p) (Fails f part p) out) (hr : part.outcome? f p = none)
    (id : UnitId) : out.2.graphs id = p.graphs id := by
  cases h with
  | done hq =>
    rw [hq.graphs id, hr]
    exact List.append_nil _
  | reported _ _ => rfl
  | ended _ _ => rfl

theorem graphs_each (hp : Catalogue f ds p) (xs : List Part)
    (hxs : ∀ x ∈ xs, ∃ item, x = .declare item ∨ x = .resolve item) (id : UnitId) :
    (each (Part.run f) xs p).2.graphs id = p.graphs id := by
  refine (each_invariant (I := fun q => (∃ ds, Catalogue f ds q) ∧ q.graphs id = p.graphs id)
    (fun x hx q hq => ?_) ⟨⟨ds, hp⟩, rfl⟩).2
  obtain ⟨⟨ds, hcat⟩, hgraphs⟩ := hq
  obtain ⟨item, rfl | rfl⟩ := hxs x hx
  · refine ⟨⟨_, hcat.declare item⟩, Eq.trans ?_ hgraphs⟩
    exact (settled_run hcat (.declare item) trivial).graphs_eq rfl id
  · refine ⟨⟨_, hcat.keep (hcat.kept_run (.resolve item) trivial nofun)⟩, Eq.trans ?_ hgraphs⟩
    exact (settled_run hcat (.resolve item) trivial).graphs_eq rfl id

theorem catalogue_declared {start : Program} (hff : f.config.failFast = false) (h : start.Indexed)
    (hf : f.module = start.nextUnit) (items : List Item) :
    Catalogue f (Ast.types items) (declared f items start) ∧
      ∀ id, (declared f items start).graphs id = start.graphs id := by
  have hfirst : Catalogue f [] (opened f start) := catalogue_start h hf
  have hcat := hfirst.declares (Prod.ext (ok_each (ok_declareItem hff) items (opened f start)) rfl)
  have hkept : Kept _ (each (Part.run f) (items.map .resolve) _).2 := hcat.kept_each resolveParts_stands
  have hdeclare := graphs_each hfirst (items.map .declare) fun x hx => by
    obtain ⟨item, -, rfl⟩ := List.mem_map.1 hx
    exact ⟨item, .inl rfl⟩
  have hresolve := graphs_each hcat (items.map .resolve) fun x hx => by
    obtain ⟨item, -, rfl⟩ := List.mem_map.1 hx
    exact ⟨item, .inr rfl⟩
  rw [each_map] at hkept hdeclare hresolve
  exact ⟨hcat.keep hkept, fun id => (hresolve id).trans ((hdeclare id).trans (graphs_addUnit rfl id))⟩

/-- **A file is assembled from the outcomes of its functions.** -/
theorem logged_assemble {config : Config} (hff : config.failFast = false) (hp : p.Indexed)
    (file : String) (items : List Item) :
    Logged ⟨config, file, p.nextUnit⟩ (declared ⟨config, file, p.nextUnit⟩ items p)
      (outcomes config file items p) (assemble config file items p).2 := by
  obtain ⟨hcat, -⟩ := catalogue_declared (f := ⟨config, file, p.nextUnit⟩) hff hp rfl items
  rw [assemble_run hff]
  exact (logged_each (fun i q hq => logged_lowerItem hff (hcat.keep hq) i) items
    (.refl hcat.indexed.arena) hcat.indexed).1

/-- A function at a site agrees with itself in arenas that grew from one program. -/
theorem agree_lower {a a' : Arena} (hab : Aligned (.same p.arena) a a') (site : Site)
    (fn : FnDecl) :
    Agree (.same p.arena) Cfg.Alike (site.lower f p fn) (site.lower f p fn) a a' := by
  cases site with
  | module =>
    have hs := (within_scope (f := f) p.arena).agrees hab.linked.left
    exact agree_lowerFunction (hs.withGenerics _) hab f.config f.module rfl fn
  | impl generics self =>
    rw [Site.lower]
    cases htarget : implTarget? f p self.type with
    | none => exact .throw hab
    | some target =>
      rw [implTarget?_eq] at htarget
      obtain ⟨name, -, hu⟩ := Option.bind_eq_some_iff.1 htarget
      have hs := within_of_declared hu generics
      exact agree_lowerFunction ((hs.agrees hab.linked.left).withGenerics _) hab f.config target.2.id rfl fn

theorem Logged.same_outcome {l l' : List FnOutcome} (hp : p.arena.Sound) (h : Logged f p l q)
    (h' : Logged f p l' r) {o o' : FnOutcome} (ho : o ∈ l) (ho' : o' ∈ l')
    (hsame : o.function = o'.function) :
    o.unit = o'.unit ∧ SameOutcome (Cfg.Alike (Same q.arena r.arena)) o.result o'.result := by
  obtain ⟨hunit, a, ha, hresult, hforms⟩ := h.settled o ho
  obtain ⟨hunit', a', ha', hresult', hforms'⟩ := h'.settled o' ho'
  have hsite : o.site = o'.site := congrArg Prod.fst hsame
  have hfn : o.fn = o'.fn := congrArg Prod.snd hsame
  rw [hsite, hfn] at hresult hforms
  have hab : Aligned (.same p.arena) a a' := ⟨linked_same hp, ha, ha', trivial⟩
  refine ⟨by rw [hunit, hunit', hsite], ?_⟩
  rw [hresult, hresult']
  refine (agree_lower hab o'.site o'.fn).same.mono fun c c' hc => hc.mono fun s t hst => ?_
  rw [types_same] at hst
  exact hst.mono hforms hforms'

end Assembly

namespace Program

open Assembly

/-- A program holds what became of the functions of a file that was added to it: each
function has one outcome, graphs are in their units and errors are recorded. -/
structure Records (start : Program) (items : List Item) (log : List FnOutcome) (p : Program) :
    Prop where
  functions : log.map FnOutcome.function = Ast.functions items
  graphs : ∀ id, p.graphs id = start.graphs id ++ graphsOf id log
  errors : ∀ r ∈ log, ∀ e, r.result = .error e →
    ∃ d ∈ p.diagnostics, d.error = e ∧ d.unit = p.unitName r.unit

theorem records_assemble {config : Config} {start : Program} (hff : config.failFast = false)
    (h : start.Indexed) (file : String) (items : List Item) :
    Records start items (outcomes config file items start) (assemble config file items start).2 := by
  have hlogged := logged_assemble hff h file items
  obtain ⟨-, hgraphs⟩ :=
    catalogue_declared (f := ⟨config, file, start.nextUnit⟩) hff h rfl items
  refine ⟨functions_eachLog functions_itemLog items _, fun id => ?_, hlogged.errors⟩
  rw [hlogged.graphs, hgraphs]

/-- **Functions of a file do not influence each other.**  Two files with the same
declarations are added to a program, and failures do not stop the assembly.  Then a
function that stands in both has the same outcome: one error, or graphs with the same
nodes, statements, edges and entries, in which types that correspond are displayed
alike. -/
theorem assemble_independent (config : Config) (hff : config.failFast = false)
    (parse : String → Option (List Ast.Item)) (read : String → Option String) (files : List String)
    (start : Program) (hstart : buildFiles config read files parse = .ok start) (file : String)
    (items items' : List Ast.Item) (hdecl : Ast.declarations items = Ast.declarations items') :
    let p := (assemble config file items start).2
    let p' := (assemble config file items' start).2
    let log := outcomes config file items start
    let log' := outcomes config file items' start
    Records start items log p ∧ Records start items' log' p' ∧
      ∀ r ∈ log, ∀ r' ∈ log', r.function = r'.function →
        r.unit = r'.unit ∧
        SameOutcome (fun c c' =>
          c.Alike (fun s t => p.arena.display s = p'.arena.display t) c' ∧
          (∀ n, (c.graph.node? n).map Statement.render = (c'.graph.node? n).map Statement.render) ∧
          c.render = c'.render) r.result r'.result := by
  have hindexed : start.Indexed := (Assembled.empty.addFiles hstart).indexed
  have hlog := logged_assemble hff hindexed file items
  have hlog' := logged_assemble hff hindexed file items'
  rw [← declared_eq hdecl] at hlog'
  obtain ⟨hcat, -⟩ :=
    catalogue_declared (f := ⟨config, file, start.nextUnit⟩) hff hindexed rfl items
  refine ⟨records_assemble hff hindexed file items, records_assemble hff hindexed file items', ?_⟩
  intro r hr r' hr' hsame
  obtain ⟨hunit, houtcome⟩ := hlog.same_outcome hcat.indexed.arena hlog' hr hr' hsame
  refine ⟨hunit, houtcome.mono fun c c' hc => ⟨hc.mono fun s t hst => ?_, fun n => ?_, hc.render_eq⟩⟩
  · exact hst.display_eq hlog.grown.sound hlog'.grown.sound
  · exact hc.graph.nodeText_eq n

def sparseFile : List Item := [.function reader, point]

/-- A function that fails shifts the types of another but does not change its graph. -/
theorem assemble_independent_reader :
    let p := (assemble {} "a.rs" crowdedFile .empty).2
    let p' := (assemble {} "a.rs" sparseFile .empty).2
    Ast.declarations crowdedFile = Ast.declarations sparseFile ∧ p.arena.forms ≠ p'.arena.forms ∧
    ∃ r ∈ outcomes {} "a.rs" crowdedFile .empty, ∃ r' ∈ outcomes {} "a.rs" sparseFile .empty,
      r.function = (.module, reader) ∧ r'.function = (.module, reader) ∧
      SameOutcome (fun c c' => c.Alike (fun s t => p.arena.display s = p'.arena.display t) c')
        r.result r'.result := by
  intro p p'
  obtain ⟨hrecords, hrecords', hsame⟩ := assemble_independent {} rfl Grammar.readFile?
    (fun _ => none) [] .empty rfl "a.rs" crowdedFile sparseFile rfl
  have hmem : (Site.module, reader) ∈
      (outcomes {} "a.rs" crowdedFile .empty).map FnOutcome.function := by
    rw [hrecords.functions]
    exact List.mem_cons_of_mem _ List.mem_cons_self
  have hmem' : (Site.module, reader) ∈
      (outcomes {} "a.rs" sparseFile .empty).map FnOutcome.function := by
    rw [hrecords'.functions]
    exact List.mem_cons_self
  obtain ⟨r, hr, hfn⟩ := List.mem_map.1 hmem
  obtain ⟨r', hr', hfn'⟩ := List.mem_map.1 hmem'
  refine ⟨rfl, by decide +kernel, r, hr, r', hr', hfn, hfn', ?_⟩
  exact (hsame r hr r' hr' (hfn.trans hfn'.symm)).2.mono fun c c' hc => hc.1

end Program

end RustFlow
