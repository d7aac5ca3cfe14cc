/-
# The catalogue of a file

While a file is assembled its types are looked up by name, and the units of its types
by type.  The *catalogue* is what these lookups find: for every name the first struct or
enum of that name (`Catalogue`).  A declaration of a new name adds to it, and all else
that is done to a program keeps it:

* units are not removed, renamed or retyped, and no struct or enum is interned (`Kept`);
* every type of a unit is live, and structs and enums are owned by units that exist
  (`Program.Indexed`).
-/

import RustFlow.Proofs.Declarations

namespace RustFlow

open Arena Program Ast

namespace Ast

/-- A struct or enum of a file. -/
structure TypeDecl where
  kind : UnitKind
  name : String
  pos : Position

/-- The form under which a struct or enum of a module is interned. -/
def TypeDecl.form (d : TypeDecl) (owner : UnitId) : TypeForm :=
  match d.kind with
  | .enum => .enum d.name owner
  | _ => .struct d.name owner

def Item.type? : Item → Option TypeDecl
  | .struct name pos _ _ => some ⟨.struct, name, pos⟩
  | .enum name pos _ _ => some ⟨.enum, name, pos⟩
  | _ => none

/-- The structs and enums of a file, repeated definitions included. -/
def types (items : List Item) : List TypeDecl := items.filterMap Item.type?

end Ast

namespace Arena

variable {a b : Arena} {f : TypeForm} {name : String} {owner : UnitId}

/-- The arena with a form added at its end. -/
def add (a : Arena) (f : TypeForm) : Arena := { a with forms := a.forms ++ [f] }

theorem intern_of_not_mem (h : f ∉ a.forms) : a.intern f = (⟨a.size⟩, a.add f) := by
  rw [intern, lookup_eq_none.2 h]
  rfl

theorem Sound.add (ha : a.Sound) (hnew : f ∉ a.forms) (hf : f.parts = []) : (a.add f).Sound := by
  have hsound := ha.intern (f := f) fun t ht => by
    rw [hf] at ht
    cases ht
  rwa [intern_of_not_mem hnew] at hsound

theorem lookup_add (a : Arena) (f g : TypeForm) :
    (a.add f).lookup g = (a.lookup g).or (if f = g then some ⟨a.size⟩ else none) := by
  unfold lookup add List.idxOf?
  rw [List.findIdx?_append, Option.map_or, Option.map_map, List.findIdx?_singleton]
  simp only [beq_iff_eq]
  split
  · simp [size]
  · rfl

theorem findNamed_eq_none :
    a.findNamed name owner = none ↔ TypeForm.struct name owner ∉ a.forms ∧ .enum name owner ∉ a.forms := by
  rw [findNamed, Option.or_eq_none_iff, findStruct, findEnum, lookup_eq_none, lookup_eq_none]

/-- A struct or enum of a new name is found at the end, and the others where they were. -/
theorem findNamed_add {d : TypeDecl} {module : UnitId} (h : a.findNamed d.name module = none)
    (name : String) (owner : UnitId) :
    (a.add (d.form module)).findNamed name owner =
      if d.name = name ∧ module = owner then some ⟨a.size⟩ else a.findNamed name owner := by
  obtain ⟨kind, new, pos⟩ := d
  rw [findNamed, findNamed, findStruct, findStruct, findEnum, findEnum, lookup_add, lookup_add]
  by_cases hsame : new = name ∧ module = owner
  · obtain ⟨rfl, rfl⟩ := hsame
    obtain ⟨hstruct, henum⟩ := findNamed_eq_none.1 h
    rw [lookup_eq_none.2 hstruct, lookup_eq_none.2 henum]
    cases kind <;> simp [TypeDecl.form]
  · cases kind <;> simp [TypeDecl.form, hsame]

theorem not_mem_of_findNamed {d : TypeDecl} {module : UnitId}
    (h : a.findNamed d.name module = none) : d.form module ∉ a.forms := by
  obtain ⟨kind, name, pos⟩ := d
  obtain ⟨hstruct, henum⟩ := findNamed_eq_none.1 h
  cases kind with
  | enum => exact henum
  | _ => exact hstruct

theorem parts_form (d : TypeDecl) (module : UnitId) : (d.form module).parts = [] := by
  obtain ⟨kind, name, pos⟩ := d
  cases kind <;> rfl

theorem Grown.setLayout (h : Grown a b) {t : TypeId} {l : Layout}
    (hf : a.forms[t.index]? = some f) (hn : f.isNamed = true) (hl : ∀ x ∈ l.types, b.Live x) :
    Widened a (b.setLayout t l) :=
  ⟨h.sound.setLayout (getElem?_mono h.forms hf) hn hl, h.forms, h.named⟩

end Arena

/-- A unit without its members. -/
def SourceUnit.bare (u : SourceUnit) : SourceUnit := { u with globals := [], cfgs := [] }

theorem SourceUnit.bare_addGlobal (u : SourceUnit) (g : Global) : (u.addGlobal g).bare = u.bare := by
  unfold addGlobal
  split <;> rfl

theorem SourceUnit.bare_addCfg (u : SourceUnit) (c : Cfg) : (u.addCfg c).bare = u.bare := rfl

theorem SourceUnit.bare_addGlobals (gs : List Global) (u : SourceUnit) :
    (gs.foldl addGlobal u).bare = u.bare := by
  induction gs generalizing u with
  | nil => rfl
  | cons g gs ih => exact (ih _).trans (u.bare_addGlobal g)

theorem Assembly.declared?_of_found {f : FileSetting} {p : Program} {name : String} {t : TypeId}
    {u : SourceUnit} (ht : p.arena.findNamed name f.module = some t)
    (hu : p.unitOfType? t = some u) : declared? f p name = some (t, u) := by
  rw [declared?, ht]
  simp only [Option.bind_eq_bind, Option.bind_some, hu]
  rfl

namespace Program

variable {p q r : Program} {f : FileSetting} {d : TypeDecl} {t : TypeId} {u : SourceUnit}

/-! ### What is kept -/

/-- A program that came from another without new units, structs or enums. -/
structure Kept (p q : Program) : Prop where
  arena : Widened p.arena q.arena
  units : q.units.map SourceUnit.bare = p.units.map SourceUnit.bare

theorem Kept.refl (h : p.arena.Sound) : Kept p p := ⟨.refl h, rfl⟩

theorem Kept.trans (h : Kept p q) (h' : Kept q r) : Kept p r :=
  ⟨h.arena.trans h'.arena, h'.units.trans h.units⟩

theorem Kept.withArena (h : Kept p q) {a : Arena} (ha : Widened q.arena a) :
    Kept p { q with arena := a } := ⟨h.arena.trans ha, h.units⟩

theorem Kept.addDiagnostic (h : Kept p q) (x : Diagnostic) : Kept p (q.addDiagnostic x) :=
  ⟨h.arena, h.units⟩

theorem Kept.modifyUnit (h : Kept p q) {g : SourceUnit → SourceUnit}
    (hg : ∀ u, (g u).bare = u.bare) (id : UnitId) : Kept p (q.modifyUnit id g) := by
  refine ⟨h.arena, Eq.trans (List.ext_getElem? fun i => ?_) h.units⟩
  rw [List.getElem?_map, getElem?_modifyUnit, List.getElem?_map, Option.map_map]
  congr 1
  funext u
  split
  · exact hg u
  · rfl

theorem Kept.length_eq (h : Kept p q) : q.units.length = p.units.length := by
  simpa only [List.length_map] using congrArg List.length h.units

theorem Kept.unit? (h : Kept p q) (id : UnitId) :
    (q.unit? id).map SourceUnit.bare = (p.unit? id).map SourceUnit.bare := by
  rw [Program.unit?, Program.unit?, ← List.getElem?_map, ← List.getElem?_map, h.units]

theorem Kept.unitOfType? (h : Kept p q) (t : TypeId) :
    (q.unitOfType? t).map SourceUnit.bare = (p.unitOfType? t).map SourceUnit.bare := by
  have hbare (r : Program) : (r.unitOfType? t).map SourceUnit.bare =
      (r.units.map SourceUnit.bare).find? fun u => u.type == some t := by
    rw [List.find?_map]
    rfl
  rw [hbare, hbare, h.units]

theorem Kept.bare_declared? (h : Kept p q) (name : String) :
    (Assembly.declared? f q name).map (fun x => (x.1, x.2.bare)) =
      (Assembly.declared? f p name).map fun x => (x.1, x.2.bare) := by
  have hbare (r : Program) : (Assembly.declared? f r name).map (fun x => (x.1, x.2.bare)) =
      (r.arena.findNamed name f.module).bind fun t =>
        ((r.unitOfType? t).map SourceUnit.bare).map fun u => (t, u) := by
    unfold Assembly.declared?
    cases r.arena.findNamed name f.module with
    | none => rfl
    | some t => cases hu : r.unitOfType? t <;> simp [hu]
  rw [hbare, hbare, h.arena.findNamed_eq]
  simp only [h.unitOfType?]

theorem Kept.declared? (h : Kept p q) {name : String}
    (hp : Assembly.declared? f p name = some (t, u)) :
    ∃ v, Assembly.declared? f q name = some (t, v) ∧ v.bare = u.bare := by
  have hbare := h.bare_declared? (f := f) name
  rw [hp] at hbare
  obtain ⟨⟨t', v⟩, hv, heq⟩ := Option.map_eq_some_iff.1 hbare
  obtain ⟨rfl, hbare⟩ := Prod.mk.inj heq
  exact ⟨v, hv, hbare⟩

/-! ### Indices -/

/-- A program in which indices mean what they should. -/
structure Indexed (p : Program) : Prop where
  arena : p.arena.Sound
  ids : ∀ (i : Nat) (u : SourceUnit), p.units[i]? = some u → u.id = ⟨i⟩
  types : ∀ u ∈ p.units, ∀ t, u.type = some t → p.arena.Live t
  owners : ∀ (name : String) (owner : UnitId), p.arena.findNamed name owner ≠ none →
    owner.index < p.units.length

theorem indexed_empty : empty.Indexed := by
  refine ⟨Arena.sound_empty, fun i u h => by simp [empty] at h,
    fun u h => (List.not_mem_nil h).elim, fun name owner h => absurd ?_ h⟩
  have hplain : ∀ f ∈ TypeForm.primitives, f.isNamed = false := by decide
  exact findNamed_eq_none.2 ⟨fun hmem => Bool.noConfusion (hplain _ hmem),
    fun hmem => Bool.noConfusion (hplain _ hmem)⟩

theorem Indexed.unit?_id (h : p.Indexed) (hu : u ∈ p.units) : p.unit? u.id = some u := by
  obtain ⟨i, hi⟩ := List.mem_iff_getElem?.1 hu
  rw [unit?, h.ids i u hi]
  exact hi

theorem Indexed.unitName_id (h : p.Indexed) (hu : u ∈ p.units) : p.unitName u.id = u.name := by
  rw [unitName, h.unit?_id hu]
  rfl

theorem Kept.indexed (h : Kept p q) (hp : p.Indexed) : q.Indexed := by
  have hunit {i : Nat} {v : SourceUnit} (hv : q.units[i]? = some v) :
      ∃ u, p.units[i]? = some u ∧ u.bare = v.bare := by
    rw [← Option.map_eq_some_iff, ← List.getElem?_map, ← h.units, List.getElem?_map, hv]
    rfl
  refine ⟨h.arena.sound, fun i v hv => ?_, fun v hv t ht => ?_, fun name owner hn => ?_⟩
  · obtain ⟨u, hu, hbare⟩ := hunit hv
    exact (congrArg SourceUnit.id hbare).symm.trans (hp.ids i u hu)
  · obtain ⟨i, hi⟩ := List.mem_iff_getElem?.1 hv
    obtain ⟨u, hu, hbare⟩ := hunit hi
    have htype : u.type = some t := (congrArg SourceUnit.type hbare).trans ht
    exact (hp.types u (List.mem_of_getElem? hu) t htype).mono h.arena.forms
  · rw [h.length_eq]
    exact hp.owners name owner (h.arena.findNamed_eq name owner ▸ hn)

theorem Indexed.addUnit (h : p.Indexed) (hid : u.id = p.nextUnit)
    (htype : ∀ t, u.type = some t → p.arena.Live t) : (p.addUnit u).Indexed := by
  refine ⟨h.arena, fun i v hv => ?_, fun v hv t ht => ?_, fun name owner hn => ?_⟩
  · rcases Nat.lt_or_ge i p.units.length with hi | hi
    · rw [Program.addUnit, List.getElem?_append_left hi] at hv
      exact h.ids i v hv
    · rw [Program.addUnit, List.getElem?_append_right hi, List.getElem?_singleton] at hv
      split at hv
      · cases hv
        rw [hid, nextUnit, Nat.le_antisymm hi (by omega)]
      · cases hv
  · rcases List.mem_append.1 hv with hv | hv
    · exact h.types v hv t ht
    · cases List.mem_singleton.1 hv
      exact htype t ht
  · exact length_addUnit p u ▸ Nat.lt_succ_of_lt (h.owners name owner hn)

/-- The unit that a struct or enum gets, whose type is the next one. -/
def unitFor (p : Program) (f : FileSetting) (d : TypeDecl) : SourceUnit :=
  ⟨p.nextUnit, d.name, d.kind, f.locate d.pos, some f.module, some ⟨p.arena.size⟩, [], []⟩

/-- The program with a struct or enum of a file added: one type and one unit. -/
def register (p : Program) (f : FileSetting) (d : TypeDecl) : Program :=
  { p with arena := p.arena.add (d.form f.module) }.addUnit (p.unitFor f d)

theorem Indexed.register (h : p.Indexed) (hmodule : f.module.index < p.units.length)
    (hnew : p.arena.findNamed d.name f.module = none) : (p.register f d).Indexed := by
  have hform := not_mem_of_findNamed hnew
  refine Indexed.addUnit (p := { p with arena := p.arena.add (d.form f.module) })
    ⟨h.arena.add hform (parts_form d f.module), h.ids,
      fun u hu t ht => (h.types u hu t ht).mono (List.prefix_append ..),
      fun name owner hn => ?_⟩ rfl fun t ht => ?_
  · rw [findNamed_add hnew] at hn
    split at hn
    · rename_i hsame
      exact hsame.2 ▸ hmodule
    · exact h.owners name owner hn
  · cases ht
    exact live_of_forms (f := d.form f.module) List.getElem?_concat_length

theorem unit?_register (id : UnitId) (hid : id.index < p.units.length) :
    (p.register f d).unit? id = p.unit? id := List.getElem?_append_left hid

theorem unitOfType?_register_of_some (h : p.unitOfType? t = some u) :
    (p.register f d).unitOfType? t = some u := by
  unfold unitOfType? at h ⊢
  rw [register, addUnit, List.find?_append, h]
  rfl

theorem Indexed.unitOfType?_register (h : p.Indexed) :
    (p.register f d).unitOfType? ⟨p.arena.size⟩ = some (p.unitFor f d) := by
  have hold : p.units.find? (fun u => u.type == some ⟨p.arena.size⟩) = none := by
    refine List.find?_eq_none.2 fun u hu htype => ?_
    exact Nat.lt_irrefl _ (h.types u hu _ (beq_iff_eq.1 htype))
  unfold unitOfType?
  rw [Program.register, Program.addUnit, List.find?_append, hold, Option.none_or]
  exact List.find?_cons_of_pos (beq_self_eq_true _)

end Program

/-- The first struct or enum of a name. -/
def Ast.firstNamed? (ds : List TypeDecl) (name : String) : Option TypeDecl :=
  ds.find? fun d => d.name == name

namespace Assembly

variable {f : FileSetting} {p q : Program} {ds : List TypeDecl} {d : TypeDecl}
  {name : String}

/-! ### The catalogue -/

/-- What lookups find in a program when these structs and enums of a file have been
declared. -/
structure Catalogue (f : FileSetting) (ds : List TypeDecl) (p : Program) : Prop where
  indexed : p.Indexed
  module : ∃ u, p.unit? f.module = some u ∧ u.name = moduleName f.file ∧ u.owner = none
  undeclared : ∀ name, firstNamed? ds name = none → p.arena.findNamed name f.module = none
  declared : ∀ name d, firstNamed? ds name = some d → ∃ t u, declared? f p name = some (t, u) ∧
    u.name = name ∧ u.owner = some f.module ∧ u.location = f.locate d.pos

theorem Catalogue.module_lt (h : Catalogue f ds p) : f.module.index < p.units.length := by
  obtain ⟨u, hu, -⟩ := h.module
  exact (List.getElem?_eq_some_iff.1 hu).1

theorem Catalogue.unitName_module (h : Catalogue f ds p) : p.unitName f.module = moduleName f.file := by
  obtain ⟨u, hu, hname, -⟩ := h.module
  rw [unitName, hu]
  exact hname

theorem Catalogue.findNamed_eq_none (h : Catalogue f ds p) (name : String) :
    p.arena.findNamed name f.module = none ↔ firstNamed? ds name = none := by
  refine ⟨fun hnone => ?_, h.undeclared name⟩
  cases hfirst : firstNamed? ds name with
  | none => rfl
  | some d =>
    obtain ⟨t, u, hdeclared, -⟩ := h.declared name d hfirst
    rw [(declared?_eq_some hdeclared).1] at hnone
    cases hnone

theorem Catalogue.keep (h : Catalogue f ds p) (hq : Kept p q) : Catalogue f ds q := by
  refine ⟨hq.indexed h.indexed, ?_, fun name hn => ?_, fun name d hd => ?_⟩
  · obtain ⟨u, hu, hname, howner⟩ := h.module
    obtain ⟨v, hv, hbare⟩ : ∃ v, q.unit? f.module = some v ∧ v.bare = u.bare := by
      rw [← Option.map_eq_some_iff, hq.unit?, hu]
      rfl
    exact ⟨v, hv, (congrArg SourceUnit.name hbare).trans hname,
      (congrArg SourceUnit.owner hbare).trans howner⟩
  · rw [hq.arena.findNamed_eq]
    exact h.undeclared name hn
  · obtain ⟨t, u, hu, hname, howner, hloc⟩ := h.declared name d hd
    obtain ⟨v, hv, hbare⟩ := hq.declared? hu
    exact ⟨t, v, hv, (congrArg SourceUnit.name hbare).trans hname,
      (congrArg SourceUnit.owner hbare).trans howner,
      (congrArg SourceUnit.location hbare).trans hloc⟩

theorem firstNamed?_concat (ds : List TypeDecl) (d : TypeDecl) (name : String) :
    firstNamed? (ds ++ [d]) name =
      (firstNamed? ds name).or (if d.name = name then some d else none) := by
  rw [firstNamed?, List.find?_append, List.find?_singleton]
  simp only [beq_iff_eq]
  rfl

theorem Catalogue.repeated (h : Catalogue f ds p) (hd : firstNamed? ds d.name ≠ none) :
    Catalogue f (ds ++ [d]) p := by
  have hsame (name : String) : firstNamed? (ds ++ [d]) name = firstNamed? ds name := by
    rw [firstNamed?_concat]
    split
    · rename_i heq
      obtain ⟨e, he⟩ := Option.ne_none_iff_exists'.1 hd
      rw [← heq, he]
      rfl
    · exact Option.or_none
  exact ⟨h.indexed, h.module, fun name hn => h.undeclared name (hsame name ▸ hn),
    fun name e he => h.declared name e (hsame name ▸ he)⟩

theorem Catalogue.register (h : Catalogue f ds p) (hd : firstNamed? ds d.name = none) :
    Catalogue f (ds ++ [d]) (p.register f d) := by
  have hnew := h.undeclared d.name hd
  have hfind : ∀ name, (p.register f d).arena.findNamed name f.module =
      if d.name = name ∧ f.module = f.module then some ⟨p.arena.size⟩
      else p.arena.findNamed name f.module := fun name => findNamed_add hnew name f.module
  refine ⟨h.indexed.register h.module_lt hnew, ?_, fun name hn => ?_, fun name e he => ?_⟩
  · rw [unit?_register _ h.module_lt]
    exact h.module
  · rw [firstNamed?_concat, Option.or_eq_none_iff] at hn
    have hne : d.name ≠ name := fun heq => by simp [heq] at hn
    rw [hfind, if_neg fun hsame => hne hsame.1]
    exact h.undeclared name hn.1
  · by_cases hname : d.name = name
    · -- the new type is at the end of the arena, so no older unit has it
      subst hname
      rw [firstNamed?_concat, hd, if_pos rfl] at he
      cases he
      refine ⟨_, _, declared?_of_found ?_ h.indexed.unitOfType?_register, rfl, rfl, rfl⟩
      rw [hfind, if_pos ⟨rfl, rfl⟩]
    · rw [firstNamed?_concat, if_neg hname, Option.or_none] at he
      obtain ⟨t, u, hu, hrest⟩ := h.declared name e he
      obtain ⟨ht, hu⟩ := declared?_eq_some hu
      refine ⟨t, u, declared?_of_found ?_ (unitOfType?_register_of_some hu), hrest⟩
      rw [hfind, if_neg fun hsame => hname hsame.1, ht]

theorem catalogue_start {start : Program} (h : start.Indexed) (hf : f.module = start.nextUnit) :
    Catalogue f [] (start.addUnit (.ofModule f.module (moduleName f.file) (f.locate .start))) := by
  refine ⟨h.addUnit hf fun t ht => (by cases ht),
    ⟨.ofModule f.module (moduleName f.file) (f.locate .start), ?_, rfl, rfl⟩, fun name _ => ?_,
    fun name d hd => (by cases hd)⟩
  · have hat : f.module.index = start.units.length := congrArg UnitId.index hf
    rw [unit?, hat]
    exact List.getElem?_concat_length
  · refine Decidable.byContradiction fun hne => ?_
    have hlt := h.owners name f.module hne
    rw [hf] at hlt
    exact Nat.lt_irrefl _ hlt

end Assembly

end RustFlow
