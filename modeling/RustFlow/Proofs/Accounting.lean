/-
# Every item of a file is accounted for

A file is assembled part by part.  A run of its parts leaves a log of `Visit`s, each with
the program before and after it.  The log tells what became of every item
(`assemble_accounts`):

* a struct or enum is registered, or it is a second definition and reported;
* a function or method adds a graph to its unit, or it is reported;
* a part that is reported leaves the program as it was, apart from new types at the
  end of the arena.
-/

import RustFlow.Proofs.Parts

namespace RustFlow

open Arena Program Attempt Ast

namespace Assembly

/-- A part that was run, with the program before and after it. -/
structure Visit where
  part : Part
  before : Program
  after : Program

/-- The visits of a run of parts. -/
def visits (f : FileSetting) : List Part → Program → List Visit
  | [], _ => []
  | part :: rest, p => ⟨part, p, (part.run f p).2⟩ :: visits f rest (part.run f p).2

/-- The program after some visits. -/
def last (p : Program) (log : List Visit) : Program := (log.getLast?.map Visit.after).getD p

namespace Visit

/-- What became of the function of a visit. -/
def outcome? (f : FileSetting) (v : Visit) : Option FnOutcome := v.part.outcome? f v.before

/-- A visit that was reported and changed nothing but the end of the arena. -/
structure Failed (v : Visit) (d : Diagnostic) : Prop where
  diagnostics : v.after.diagnostics = v.before.diagnostics ++ [d]
  units : v.after.units = v.before.units
  layouts : v.after.arena.layouts = v.before.arena.layouts
  forms : v.before.arena.forms <+: v.after.arena.forms

end Visit

/-- A log that accounts for the items of a file. -/
structure Accounts (f : FileSetting) (items : List Item) (start : Program) (log : List Visit) :
    Prop where
  parts : log.map Visit.part = parts items
  /-- The first definition of a name adds one type and one unit.  A second one is reported
  when it is declared, and its members are not resolved. -/
  types : ∀ (i : Nat) (item : Item) (d : TypeDecl), items[i]? = some item →
    item.type? = some d → ∃ v w, log[i]? = some v ∧ v.part = .declare item ∧
      log[items.length + i]? = some w ∧ w.part = .resolve item ∧
      if d.name ∈ (Ast.types (items.take i)).map TypeDecl.name then
        v.after = v.before.addDiagnostic ⟨moduleName f.file, d.name, repeatedError f d⟩ ∧
          w.after = w.before
      else
        d.form f.module ∉ v.before.arena.forms ∧ v.after = v.before.register f d
  /-- No other part adds a unit, a struct or an enum. -/
  others : ∀ v ∈ log, (∀ item d, v.part = .declare item → item.type? ≠ some d) →
    v.after.units.map SourceUnit.bare = v.before.units.map SourceUnit.bare ∧
    ∀ form : TypeForm, form.isNamed = true →
      (form ∈ v.after.arena.forms ↔ form ∈ v.before.arena.forms)
  /-- A function is lowered into its unit, or reported with it. -/
  functions : ∀ v ∈ log, ∀ r, v.outcome? f = some r →
    (∃ u, v.before.unit? r.unit = some u ∧ u.name = (v.part.label f.file).1 ∧
      u.owner = v.part.owner? f.module) ∧
    match r.result with
    | .ok c => v.after.diagnostics = v.before.diagnostics ∧
        v.after.units = v.before.units.modify r.unit.index fun u => u.addCfg c
    | .error e => v.Failed ⟨(v.part.label f.file).1, r.fn.name, e⟩
  /-- The graphs of a unit are those of its functions that were lowered, in order. -/
  graphs : ∀ id, (last (opened f start) log).graphs id =
    start.graphs id ++ graphsOf id (log.filterMap fun v => v.outcome? f)
  /-- Nothing is reported, or one failure, which leaves nothing behind. -/
  atomic : ∀ v ∈ log, v.after.diagnostics = v.before.diagnostics ∨
    ∃ e, v.Failed ⟨(v.part.label f.file).1, (v.part.label f.file).2, e⟩

variable {f : FileSetting} {p q : Program} {ds : List TypeDecl} {xs ys : List Part}

/-! ### Logs -/

theorem last_cons (v : Visit) (log : List Visit) : last p (v :: log) = last v.after log := by
  cases log with
  | nil => rfl
  | cons w log => rw [last, last, List.getLast?_cons_cons]; rfl

theorem visits_append (xs ys : List Part) (p : Program) :
    visits f (xs ++ ys) p = visits f xs p ++ visits f ys (last p (visits f xs p)) := by
  induction xs generalizing p with
  | nil => rfl
  | cons x xs ih => rw [List.cons_append, visits, visits, ih, last_cons, List.cons_append]

theorem map_part_visits (xs : List Part) (p : Program) : (visits f xs p).map Visit.part = xs := by
  induction xs generalizing p with
  | nil => rfl
  | cons x xs ih => rw [visits, List.map_cons, ih]

theorem length_visits (xs : List Part) (p : Program) : (visits f xs p).length = xs.length := by
  rw [← List.length_map Visit.part, map_part_visits]

theorem after_of_mem {v : Visit} (h : v ∈ visits f xs p) : v.after = (v.part.run f v.before).2 := by
  induction xs generalizing p with
  | nil => cases h
  | cons x xs ih =>
    rcases List.mem_cons.1 h with rfl | h
    · rfl
    · exact ih h

theorem visits_invariant {I : Program → Prop} (hI : ∀ x ∈ xs, ∀ p, I p → I (x.run f p).2) (hp : I p) :
    (∀ v ∈ visits f xs p, I v.before) ∧ I (last p (visits f xs p)) := by
  induction xs generalizing p with
  | nil => exact ⟨fun v hv => (List.not_mem_nil hv).elim, hp⟩
  | cons x xs ih =>
    obtain ⟨hbefore, hlast⟩ := ih (fun y hy => hI y (List.mem_cons_of_mem _ hy))
      (hI x List.mem_cons_self p hp)
    refine ⟨fun v hv => ?_, ?_⟩
    · rcases List.mem_cons.1 hv with rfl | hv
      · exact hp
      · exact hbefore v hv
    · rw [visits, last_cons]
      exact hlast

theorem ok_run (hff : f.config.failFast = false) (part : Part) (p : Program) :
    (part.run f p).1 = .ok () := by
  cases part with
  | declare item => exact ok_declareItem hff item p
  | resolve item => exact ok_resolveItem hff item p
  | function fn => exact ok_isolate hff ..
  | member generics self m =>
    rw [Part.run, bind_run, get_run]
    dsimp only
    cases implTarget? f p self.type with
    | none => rfl
    | some target => cases m <;> exact ok_isolate hff ..
  | refused self => exact ok_isolate hff ..

theorem each_visits (hff : f.config.failFast = false) (xs : List Part) (p : Program) :
    each (Part.run f) xs p = (.ok (), last p (visits f xs p)) := by
  induction xs generalizing p with
  | nil => rfl
  | cons x xs ih =>
    have hx := ok_run hff x p
    rw [each, bind_run, visits, last_cons]
    generalize x.run f p = r at hx
    obtain ⟨out, q⟩ := r
    cases hx
    exact ih q

/-! ### The catalogue along a log -/

variable {items : List Item} {item : Item} {d : TypeDecl} {v : Visit}

theorem visits_declare (h : Catalogue f ds p) (items : List Item) :
    Catalogue f (ds ++ Ast.types items) (last p (visits f (items.map .declare) p)) ∧
    ∀ (i : Nat) (item : Item), items[i]? = some item →
      ∃ v, (visits f (items.map .declare) p)[i]? = some v ∧ v.part = .declare item ∧
        Catalogue f (ds ++ Ast.types (items.take i)) v.before := by
  induction items generalizing ds p with
  | nil => exact ⟨(List.append_nil ds).symm ▸ h, fun i item hi => by cases hi⟩
  | cons x items ih =>
    obtain ⟨hlast, hvisits⟩ := ih (h.declare x)
    rw [List.append_assoc, ← types_cons] at hlast
    refine ⟨by rwa [List.map_cons, visits, last_cons], fun i item hi => ?_⟩
    cases i with
    | zero =>
      cases hi
      exact ⟨_, rfl, rfl, (List.append_nil ds).symm ▸ h⟩
    | succ i =>
      obtain ⟨v, hv, hpart, hcat⟩ := hvisits i item hi
      rw [List.append_assoc, ← types_cons] at hcat
      exact ⟨v, hv, hpart, hcat⟩

/-- Every visit finds the catalogue of what was declared before it. -/
theorem catalogue_of_mem (h : Catalogue f [] p) (hv : v ∈ visits f (parts items) p) :
    (∃ item, v.part = .declare item ∧ ∃ ds, Catalogue f ds v.before) ∨
    Catalogue f (Ast.types items) v.before ∧ v.part.Stands (Ast.types items) ∧
      ∀ i d, v.part = .declare i → i.type? ≠ some d := by
  obtain ⟨hlast, hdeclare⟩ := visits_declare h items
  rw [parts, List.append_assoc, visits_append] at hv
  rcases List.mem_append.1 hv with hv | hv
  · obtain ⟨i, hi⟩ := List.mem_iff_getElem?.1 hv
    have hlt := (List.getElem?_eq_some_iff.1 hi).1
    rw [length_visits, List.length_map] at hlt
    obtain ⟨w, hw, hpart, hcat⟩ := hdeclare i _ (List.getElem?_eq_getElem hlt)
    cases hi.symm.trans hw
    exact .inl ⟨_, hpart, _, hcat⟩
  · have hstands : ∀ part ∈ items.map .resolve ++ items.flatMap (lowerParts (Ast.types items)),
        part.Stands (Ast.types items) ∧ ∀ i d, part = .declare i → i.type? ≠ some d := by
      intro part hpart
      rcases List.mem_append.1 hpart with hpart | hpart
      · exact resolveParts_stands part hpart
      · obtain ⟨item, -, hitem⟩ := List.mem_flatMap.1 hpart
        exact lowerParts_stands hitem
    have hpart := List.mem_map_of_mem (f := Visit.part) hv
    rw [map_part_visits] at hpart
    refine .inr ⟨(visits_invariant (fun x hx q hq => ?_) hlast).1 v hv, hstands v.part hpart⟩
    exact Catalogue.keep hq (Catalogue.kept_run hq x (hstands x hx).1 (hstands x hx).2)

theorem exists_catalogue (h : Catalogue f [] p) (hv : v ∈ visits f (parts items) p) :
    ∃ ds, Catalogue f ds v.before ∧ v.part.Stands ds := by
  rcases catalogue_of_mem h hv with ⟨item, hitem, ds, hcat⟩ | ⟨hcat, hstands, -⟩
  · exact ⟨ds, hcat, hitem ▸ trivial⟩
  · exact ⟨_, hcat, hstands⟩

/-! ### What a visit does -/

theorem failed_of_grown {a : Arena} {x : Diagnostic} (ha : Grown v.before.arena a)
    (hv : v.after = { v.before with arena := a }.addDiagnostic x) : v.Failed x := by
  rw [Program.addDiagnostic] at hv
  exact ⟨by rw [hv], by rw [hv], by rw [hv]; exact ha.layouts, by rw [hv]; exact ha.forms⟩

theorem Settled.cases_of_record (hff : f.config.failFast = false) {label : String × String}
    {S : Program → Prop} {E : Error → Arena → Prop} {r : Except Error Unit × Program}
    (h : Settled f label p S E r) :
    S r.2 ∨ ∃ e a, E e a ∧ r.2 = { p with arena := a }.addDiagnostic ⟨label.1, label.2, e⟩ := by
  cases h with
  | done hq => exact .inl hq
  | @reported e a _ he => exact .inr ⟨e, a, he, rfl⟩
  | ended htrue _ =>
    rw [hff] at htrue
    cases htrue

theorem label_of_outcome {part : Part} {r : FnOutcome} (h : part.outcome? f p = some r)
    (file : String) : (part.label file).2 = r.fn.name := by
  cases part with
  | function fn =>
    cases h
    rfl
  | member generics self m =>
    cases m with
    | method fn =>
      cases h
      rfl
    | _ => cases h
  | _ => cases h

theorem visit_cases (hff : f.config.failFast = false) (h : Catalogue f ds v.before)
    (hstands : v.part.Stands ds) (hv : v.after = (v.part.run f v.before).2) :
    Steps f v.part v.before v.after ∨ ∃ e a, Fails f v.part v.before e a ∧
      v.after = { v.before with arena := a }.addDiagnostic
        ⟨(v.part.label f.file).1, (v.part.label f.file).2, e⟩ := by
  rw [hv]
  exact (settled_run h _ hstands).cases_of_record hff

theorem graphs_visit (hff : f.config.failFast = false) (h : Catalogue f ds v.before)
    (hstands : v.part.Stands ds) (hv : v.after = (v.part.run f v.before).2) (id : UnitId) :
    v.after.graphs id = v.before.graphs id ++ graphsOf id (v.outcome? f).toList := by
  rcases visit_cases hff h hstands hv with hsteps | ⟨e, a, hfails, hafter⟩
  · exact hsteps.graphs id
  · have hnone : graphsOf id (v.outcome? f).toList = [] := by
      cases hr : v.outcome? f with
      | none => rfl
      | some r =>
        rw [graphsOf, Option.toList_some, List.filterMap_cons, hfails.outcome r hr]
        simp only [Except.toOption, ite_self, List.filterMap_nil]
    rw [hnone, List.append_nil, hafter]
    rfl

theorem graphs_last {id : UnitId} (h : ∀ v ∈ visits f xs p, v.after.graphs id =
      v.before.graphs id ++ graphsOf id (v.outcome? f).toList) :
    (last p (visits f xs p)).graphs id =
      p.graphs id ++ graphsOf id ((visits f xs p).filterMap fun v => v.outcome? f) := by
  induction xs generalizing p with
  | nil => exact (List.append_nil _).symm
  | cons x xs ih =>
    have hx := h _ List.mem_cons_self
    rw [visits, last_cons, ih fun v hv => h v (List.mem_cons_of_mem _ hv), hx, List.append_assoc,
      ← graphsOf_append, filterMap_cons_toList]

/-! ### Structs and enums -/

theorem firstNamed?_eq_none {name : String} :
    firstNamed? ds name = none ↔ name ∉ ds.map TypeDecl.name := by
  rw [firstNamed?, List.find?_eq_none]
  constructor
  · intro h hmem
    obtain ⟨d, hd, rfl⟩ := List.mem_map.1 hmem
    exact h d hd (beq_self_eq_true _)
  · intro h d hd heq
    exact h (beq_iff_eq.1 heq ▸ List.mem_map_of_mem hd)

theorem types_split {i : Nat} (hi : items[i]? = some item) (hd : item.type? = some d) :
    Ast.types items = Ast.types (items.take i) ++ d :: Ast.types (items.drop (i + 1)) := by
  obtain ⟨hlt, rfl⟩ := List.getElem?_eq_some_iff.1 hi
  conv_lhs => rw [← List.take_append_drop i items, List.drop_eq_getElem_cons hlt]
  rw [Ast.types, List.filterMap_append, List.filterMap_cons_some hd]
  rfl

/-- The members of a second definition are not resolved. -/
theorem resolveItem_repeated (h : Catalogue f (Ast.types items) p)
    (hpos : ((Ast.types items).map TypeDecl.pos).Nodup) {i : Nat} (hi : items[i]? = some item)
    (hd : item.type? = some d)
    (hold : d.name ∈ (Ast.types (items.take i)).map TypeDecl.name) :
    resolveItem f item p = (.ok (), p) := by
  obtain ⟨e, he⟩ := Option.ne_none_iff_exists'.1 fun hnone => firstNamed?_eq_none.1 hnone hold
  have hsplit := types_split hi hd
  have hfirst : firstNamed? (Ast.types items) d.name = some e := by
    rw [hsplit, firstNamed?, List.find?_append]
    exact Option.or_eq_some_iff.2 (.inl he)
  -- the first definition stands elsewhere
  have hne : e.pos ≠ d.pos := by
    rw [hsplit, List.map_append, List.map_cons] at hpos
    exact (List.nodup_append.1 hpos).2.2 _ (List.mem_map_of_mem (List.mem_of_find?_eq_some he)) _
      List.mem_cons_self
  obtain ⟨t, u, hu, -, -, hloc⟩ := h.declared d.name e hfirst
  have hnone : registered? f p d.name d.pos = none := by
    rw [registered?, hu, Option.filter_some]
    refine if_neg fun heq => hne ?_
    have hsame : u.location = f.locate d.pos := beq_iff_eq.1 heq
    exact congrArg Location.position (hloc.symm.trans hsame)
  cases item with
  | struct name pos generics fields =>
    cases hd
    rw [resolveItem, bind_run, get_run]
    dsimp only
    rw [hnone]
    rfl
  | enum name pos generics variants =>
    cases hd
    rw [resolveItem, bind_run, get_run]
    dsimp only
    rw [hnone]
    rfl
  | _ => cases hd

/-- A struct or enum is registered just if it is the first of its name. -/
theorem declare_visit (hff : f.config.failFast = false) (h : Catalogue f ds p)
    (hd : item.type? = some d) :
    if d.name ∈ ds.map TypeDecl.name then
      (declareItem f item p).2 = p.addDiagnostic ⟨moduleName f.file, d.name, repeatedError f d⟩
    else d.form f.module ∉ p.arena.forms ∧ (declareItem f item p).2 = p.register f d := by
  rcases (settled_declare h hd).cases_of_record hff with
    ⟨hnew, hafter⟩ | ⟨e, a, ⟨hold, rfl, rfl⟩, hafter⟩
  · rw [if_neg (firstNamed?_eq_none.1 hnew)]
    exact ⟨not_mem_of_findNamed (h.undeclared d.name hnew), hafter⟩
  · rw [if_pos (Decidable.not_not.1 fun hmem => hold (firstNamed?_eq_none.2 hmem))]
    exact hafter

theorem getElem?_parts {i : Nat} (hi : items[i]? = some item) :
    (parts items)[items.length + i]? = some (.resolve item) := by
  rw [parts, List.append_assoc, List.getElem?_append_right (by rw [List.length_map]; omega),
    List.length_map, Nat.add_sub_cancel_left, List.getElem?_append_left, List.getElem?_map, hi]
  · rfl
  · rw [List.length_map]
    exact (List.getElem?_eq_some_iff.1 hi).1

theorem accounts_types (hff : f.config.failFast = false) (h : Catalogue f [] p)
    (hpos : ((Ast.types items).map TypeDecl.pos).Nodup) {i : Nat} (hi : items[i]? = some item)
    (hd : item.type? = some d) :
    ∃ v w, (visits f (parts items) p)[i]? = some v ∧ v.part = .declare item ∧
      (visits f (parts items) p)[items.length + i]? = some w ∧ w.part = .resolve item ∧
      if d.name ∈ (Ast.types (items.take i)).map TypeDecl.name then
        v.after = v.before.addDiagnostic ⟨moduleName f.file, d.name, repeatedError f d⟩ ∧
          w.after = w.before
      else
        d.form f.module ∉ v.before.arena.forms ∧ v.after = v.before.register f d := by
  obtain ⟨v, hv, hpart, hcat⟩ := (visits_declare h items).2 i item hi
  have hv' : (visits f (parts items) p)[i]? = some v := by
    rw [parts, List.append_assoc, visits_append]
    exact List.getElem?_append_left (List.getElem?_eq_some_iff.1 hv).1 ▸ hv
  obtain ⟨w, hw, hpart'⟩ : ∃ w, (visits f (parts items) p)[items.length + i]? = some w ∧
      w.part = .resolve item := by
    rw [← Option.map_eq_some_iff, ← List.getElem?_map, map_part_visits]
    exact getElem?_parts hi
  refine ⟨v, w, hv', hpart, hw, hpart', ?_⟩
  have hafter := after_of_mem (List.mem_of_getElem? hv')
  have hafter' := after_of_mem (List.mem_of_getElem? hw)
  rw [hpart] at hafter
  rw [hpart'] at hafter'
  have hvisit := declare_visit hff hcat hd
  rw [List.nil_append] at hvisit
  rw [hafter, hafter']
  split
  · rename_i hold
    rw [if_pos hold] at hvisit
    refine ⟨hvisit, ?_⟩
    rcases catalogue_of_mem h (List.mem_of_getElem? hw) with ⟨x, hx, -⟩ | ⟨hfull, -⟩
    · rw [hpart'] at hx
      cases hx
    · exact congrArg Prod.snd (resolveItem_repeated hfull hpos hi hd hold)
  · rename_i hnew
    rw [if_neg hnew] at hvisit
    exact hvisit

/-! ### Other parts -/

theorem accounts_others (h : Catalogue f [] p) (hv : v ∈ visits f (parts items) p)
    (hother : ∀ item d, v.part = .declare item → item.type? ≠ some d) :
    v.after.units.map SourceUnit.bare = v.before.units.map SourceUnit.bare ∧
    ∀ form : TypeForm, form.isNamed = true →
      (form ∈ v.after.arena.forms ↔ form ∈ v.before.arena.forms) := by
  obtain ⟨ds, hcat, hstands⟩ := exists_catalogue h hv
  have hkept := hcat.kept_run v.part hstands hother
  rw [← after_of_mem hv] at hkept
  exact ⟨hkept.units, fun form hform =>
    ⟨fun hmem => hkept.arena.named form hmem hform, fun hmem => hkept.arena.forms.subset hmem⟩⟩

theorem accounts_functions (hff : f.config.failFast = false) (h : Catalogue f [] p)
    (hv : v ∈ visits f (parts items) p) {r : FnOutcome} (hr : v.outcome? f = some r) :
    (∃ u, v.before.unit? r.unit = some u ∧ u.name = (v.part.label f.file).1 ∧
      u.owner = v.part.owner? f.module) ∧
    match r.result with
    | .ok c => v.after.diagnostics = v.before.diagnostics ∧
        v.after.units = v.before.units.modify r.unit.index fun u => u.addCfg c
    | .error e => v.Failed ⟨(v.part.label f.file).1, r.fn.name, e⟩ := by
  obtain ⟨ds, hcat, hstands⟩ := exists_catalogue h hv
  refine ⟨hcat.unit_of_outcome hstands hr, ?_⟩
  have hafter := after_of_mem hv
  rcases (settled_outcome hcat hstands hr).cases_of_record hff with
    ⟨c, a, hlowered, hq⟩ | ⟨e, a, hlowered, hq⟩
  · rw [hlowered.result, hafter, hq]
    exact ⟨rfl, rfl⟩
  · rw [hlowered.result, ← label_of_outcome hr f.file]
    exact failed_of_grown hlowered.grown (hafter.trans hq)

theorem accounts_atomic (hff : f.config.failFast = false) (h : Catalogue f [] p)
    (hv : v ∈ visits f (parts items) p) :
    v.after.diagnostics = v.before.diagnostics ∨
      ∃ e, v.Failed ⟨(v.part.label f.file).1, (v.part.label f.file).2, e⟩ := by
  obtain ⟨ds, hcat, hstands⟩ := exists_catalogue h hv
  rcases visit_cases hff hcat hstands (after_of_mem hv) with hsteps | ⟨e, a, hfails, hafter⟩
  · exact .inl hsteps.diagnostics
  · exact .inr ⟨e, failed_of_grown hfails.grown hafter⟩

/-- **Failures are isolated, and every item is accounted for.**  A file whose structs and
enums stand in different places is added to a program, and failures do not stop the
assembly.  Then the assembly succeeds, and the log of its parts accounts for all items. -/
theorem assemble_accounts (config : Config) (hff : config.failFast = false) (start : Program)
    (hstart : start.Assembled) (file : String) (items : List Ast.Item)
    (hpos : ((Ast.types items).map Ast.TypeDecl.pos).Nodup) :
    let f : FileSetting := ⟨config, file, start.nextUnit⟩
    let log := visits f (parts items) (opened f start)
    assemble config file items start = (.ok (), last (opened f start) log) ∧
      Accounts f items start log := by
  intro f log
  have hfirst : Catalogue f [] (opened f start) := catalogue_start hstart.indexed rfl
  refine ⟨(assemble_parts hstart.indexed config file items).trans (each_visits hff _ _), ?_⟩
  exact {
    parts := map_part_visits _ _
    types := fun i item d hi hd => accounts_types hff hfirst hpos hi hd
    others := fun v hv => accounts_others hfirst hv
    functions := fun v hv r hr => accounts_functions hff hfirst hv hr
    graphs := fun id => by
      refine (graphs_last fun v hv => ?_).trans (congrArg (· ++ _) (graphs_addUnit rfl id))
      obtain ⟨ds, hcat, hstands⟩ := exists_catalogue hfirst hv
      exact graphs_visit hff hcat hstands (after_of_mem hv) id
    atomic := fun v hv => accounts_atomic hff hfirst hv }

/-- `fn f(p: &P) -> i32 { p.x }`. -/
def reader : FnDecl :=
  let path (name : String) : Ast.Path := ⟨default, false, false, [], ⟨name, false⟩, name⟩
  ⟨"f", ⟨3, 4⟩, false, false, [],
    [.typed default (.binding default "p" false) ⟨.reference false (.path (path "P")), default, "&P"⟩],
    some ⟨.path (path "i32"), default, "i32"⟩,
    .mk default [.expr (.field default (.path default (path "p")) "x") false]⟩

/-- `fn g(q: (P, P)) -> Q {}`, which fails after its parameter is resolved. -/
def failing : FnDecl :=
  let path (name : String) : Ast.Path := ⟨default, false, false, [], ⟨name, false⟩, name⟩
  ⟨"g", ⟨2, 4⟩, false, false, [],
    [.typed default (.binding default "q" false)
      ⟨.tuple [.path (path "P"), .path (path "P")], default, "(P, P)"⟩],
    some ⟨.path (path "Q"), default, "Q"⟩, .mk default []⟩

/-- `struct P { x: i32 }`. -/
def point : Item :=
  let path : Ast.Path := ⟨default, false, false, [], ⟨"i32", false⟩, "i32"⟩
  .struct "P" .start [] (.named [⟨default, some "x", ⟨.path path, default, "i32"⟩⟩])

def crowdedFile : List Item := [point, .function failing, .function reader]

/-- `struct P { x: i32 }  struct P;  impl P { fn f.. fn g.. }  fn g..`, with a second
definition, a method that is lowered and functions that are not. -/
def faultyFile : List Item :=
  let path : Ast.Path := ⟨default, false, false, [], ⟨"P", false⟩, "P"⟩
  [point, .struct "P" ⟨2, 8⟩ [] .unit,
    .impl [] ⟨.path path, default, "P"⟩ [.method reader, .method failing], .function failing]

/-- The faulty file is added to a program that has another `P`. -/
theorem assemble_accounts_faultyFile :
    let start := (assemble {} "a.rs" crowdedFile .empty).2
    let f : FileSetting := ⟨{}, "b.rs", start.nextUnit⟩
    let log := visits f (parts faultyFile) (opened f start)
    start.Assembled ∧ ((Ast.types faultyFile).map Ast.TypeDecl.pos).Nodup ∧
      Accounts f faultyFile start log ∧
      (assemble {} "b.rs" faultyFile start).2.diagnostics.map Diagnostic.render =
        ["a::g: unresolved type `Q` at a.rs:0:0",
          "b::P: unsupported construct `second definition of `P`` at b.rs:2:8",
          "P::g: unresolved type `Q` at b.rs:0:0", "b::g: unresolved type `Q` at b.rs:0:0"] := by
  intro start f log
  have hstart : start.Assembled := .step {} "a.rs" crowdedFile .empty
  have hpos : ((Ast.types faultyFile).map Ast.TypeDecl.pos).Nodup := by decide
  obtain ⟨hrun, haccounts⟩ := assemble_accounts {} rfl start hstart "b.rs" faultyFile hpos
  refine ⟨hstart, hpos, haccounts, ?_⟩
  decide +kernel

end Assembly

end RustFlow
