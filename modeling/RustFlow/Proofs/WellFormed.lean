/-
# Well-formed programs

The units of a program, the structs and enums of its arena and the signatures of its
graphs are kept apart, and each pass of assembly writes some of them.  They still say the
same (`Program.WellFormed`): a unit stands at its id, a struct or enum has exactly one
unit, which names its module and its type, and a graph stands in the unit that its
signature names.

Only a declaration adds a struct or enum, and it adds the unit with it; all else that is
done to a program keeps both, so the link between them is an invariant of assembly
(`Linked`).  That a module declares a name once follows from the search in the arena
alone: the type of an older unit of that name and module would be found there.
-/

import Mathlib.Data.Set.Function
import RustFlow.Proofs.ExitShape
import RustFlow.Proofs.Walks

namespace RustFlow

open Arena Attempt Ast

/-- The form of the type that a struct or enum of a module has; none for a module. -/
def UnitKind.form? (name : String) (owner : UnitId) : UnitKind → Option TypeForm
  | module => none
  | struct => some (.struct name owner)
  | enum => some (.enum name owner)

theorem UnitKind.isNamed_of_form? {kind : UnitKind} {name : String} {owner : UnitId}
    {form : TypeForm} (h : kind.form? name owner = some form) : form.isNamed = true := by
  cases kind <;> cases h <;> rfl

/-- The form of a struct or enum gives back its name and owner. -/
theorem UnitKind.form?_inj {k k' : UnitKind} {name name' : String} {o o' : UnitId}
    {form : TypeForm} (h : k.form? name o = some form) (h' : k'.form? name' o' = some form) :
    name = name' ∧ o = o' := by
  cases k <;> cases h <;> cases k' <;> cases h' <;> exact ⟨rfl, rfl⟩

namespace SourceUnit

/-- A unit of a struct or enum. -/
def IsType (u : SourceUnit) : Prop := u.kind ≠ .module

/-- A unit that names its module, which came before it, and its type, which has the kind,
name and owner that the unit says. -/
structure Declares (a : Arena) (u m : SourceUnit) (t : TypeId) : Prop where
  module : m.kind = .module ∧ m.id.index < u.id.index
  owner : u.owner = some m.id
  type : u.type = some t
  form : a.Live t ∧ u.kind.form? u.name m.id = some (a.form t)

end SourceUnit

namespace Program

/-- The units of the structs and enums of a program. -/
def typeUnits (p : Program) : Set SourceUnit := {u | u ∈ p.units ∧ u.IsType}

/-- The structs and enums in the arena of a program. -/
def namedTypes (p : Program) : Set TypeId := {t | p.arena.Live t ∧ (p.arena.form t).isNamed = true}

/-- A program whose units, types and graphs say the same. -/
structure WellFormed (p : Program) : Prop where
  ids : ∀ (i : Nat) (u : SourceUnit), p.units[i]? = some u → u.id = ⟨i⟩
  modules : ∀ u ∈ p.units, u.kind = .module → u.owner = none ∧ u.type = none
  types : ∀ u ∈ p.typeUnits, ∃ m ∈ p.units, ∃ t, u.Declares p.arena m t
  /-- Units and structs or enums correspond one to one. -/
  bijection : Set.BijOn SourceUnit.type p.typeUnits (some '' p.namedTypes)
  /-- A struct and an enum of one name count as two of that name. -/
  names : ∀ u ∈ p.typeUnits, ∀ v ∈ p.typeUnits, u.owner = v.owner → u.name = v.name → u = v
  graphs : ∀ u ∈ p.units, ∀ c ∈ u.cfgs, c.signature.unit = u.id

end Program

/-! ### Units and their types -/

section Linked

variable {us : List SourceUnit} {a b : Arena} {u m : SourceUnit} {t : TypeId}

theorem SourceUnit.Declares.findNamed_ne_none (h : u.Declares a m t) :
    a.findNamed u.name m.id ≠ none := by
  intro hnone
  obtain ⟨hstruct, henum⟩ := findNamed_eq_none.1 hnone
  obtain ⟨hlive, hform⟩ := h.form
  have hmem : a.form t ∈ a.forms := by
    rw [form_of_forms (List.getElem?_eq_getElem hlive)]
    exact List.getElem_mem hlive
  cases hkind : u.kind with
  | module =>
    rw [hkind] at hform
    cases hform
  | struct =>
    rw [hkind] at hform
    exact hstruct (Option.some.inj hform ▸ hmem)
  | enum =>
    rw [hkind] at hform
    exact henum (Option.some.inj hform ▸ hmem)

theorem SourceUnit.Declares.mono (h : u.Declares a m t) (hforms : a.forms <+: b.forms) :
    u.Declares b m t := by
  obtain ⟨hlive, hform⟩ := h.form
  have hold := List.getElem?_eq_getElem hlive
  refine ⟨h.module, h.owner, h.type, hlive.mono hforms, hform.trans ?_⟩
  rw [form_of_forms hold, form_of_forms (getElem?_mono hforms hold)]

/-- Units that declare the structs and enums of an arena, no two of them in one module
under one name. -/
structure Linked (us : List SourceUnit) (a : Arena) : Prop where
  modules : ∀ u ∈ us, u.kind = .module → u.owner = none ∧ u.type = none
  types : ∀ u ∈ us, u.IsType → ∃ m ∈ us, ∃ t, u.Declares a m t
  units : ∀ t, a.Live t → (a.form t).isNamed = true → ∃ u ∈ us, u.IsType ∧ u.type = some t
  names : ∀ u ∈ us, ∀ v ∈ us, u.IsType → v.IsType → u.owner = v.owner → u.name = v.name →
    u.id = v.id

theorem linked_empty : Linked [] .empty := by
  refine ⟨nofun, nofun, fun t hlive hnamed => ?_, nofun⟩
  have hplain : ∀ f ∈ TypeForm.primitives, f.isNamed = false := by decide
  have hform := List.getElem?_eq_getElem hlive
  rw [form_of_forms hform, hplain _ (List.mem_of_getElem? hform)] at hnamed
  cases hnamed

theorem Linked.kind_eq (h : Linked us a) (hu : u ∈ us) (howner : u.owner = none) :
    u.kind = .module := by
  by_contra hkind
  obtain ⟨m, -, t, hdeclares⟩ := h.types u hu hkind
  rw [hdeclares.owner] at howner
  cases howner

theorem Linked.widened (h : Linked us a) (hb : Widened a b) : Linked us b := by
  refine ⟨h.modules, fun u hu htype => ?_, fun t hlive hnamed => ?_, h.names⟩
  · obtain ⟨m, hm, t, hdeclares⟩ := h.types u hu htype
    exact ⟨m, hm, t, hdeclares.mono hb.forms⟩
  · have hform := List.getElem?_eq_getElem hlive
    rw [form_of_forms hform] at hnamed
    have hold := hb.sound.forms_of_mem hb.forms
      (hb.named _ (List.mem_of_getElem? hform) hnamed) hform
    exact h.units t (live_of_forms hold) (form_of_forms hold ▸ hnamed)

theorem Linked.addModule (h : Linked us a) (id : UnitId) (name : String) (location : Location) :
    Linked (us ++ [.ofModule id name location]) a := by
  have hold {v : SourceUnit} (hv : v ∈ us ++ [.ofModule id name location]) (htype : v.IsType) :
      v ∈ us := by
    rcases List.mem_append.1 hv with hv | hv
    · exact hv
    · cases List.mem_singleton.1 hv
      exact absurd rfl htype
  refine ⟨List.forall_mem_append.2 ⟨h.modules, List.forall_mem_singleton.2 fun _ => ⟨rfl, rfl⟩⟩,
    fun u hu htype => ?_, fun t hlive hnamed => ?_, fun u hu v hv htype htype' => ?_⟩
  · obtain ⟨m, hm, t, hdeclares⟩ := h.types u (hold hu htype) htype
    exact ⟨m, List.mem_append_left _ hm, t, hdeclares⟩
  · obtain ⟨u, hu, hrest⟩ := h.units t hlive hnamed
    exact ⟨u, List.mem_append_left _ hu, hrest⟩
  · exact h.names u (hold hu htype) v (hold hv htype') htype htype'

theorem Linked.addType (h : Linked us a) {form : TypeForm} (hu : u.Declares (a.add form) m ⟨a.size⟩)
    (hm : m ∈ us) (hnew : a.findNamed u.name m.id = none) : Linked (us ++ [u]) (a.add form) := by
  have hforms : a.forms <+: (a.add form).forms := List.prefix_append ..
  have hutype : u.IsType := fun hkind => by
    have hform := hu.form.2
    rw [hkind] at hform
    cases hform
  -- an older unit of the module would be found under the name
  have hfresh : ∀ v ∈ us, v.IsType → v.owner = u.owner → v.name ≠ u.name := by
    intro v hv htype howner hname
    obtain ⟨m', hm', t, hdeclares⟩ := h.types v hv htype
    have hid : m'.id = m.id := Option.some.inj (hdeclares.owner.symm.trans (howner.trans hu.owner))
    exact hdeclares.findNamed_ne_none (by rw [hname, hid, hnew])
  refine ⟨List.forall_mem_append.2 ⟨h.modules, List.forall_mem_singleton.2 (absurd · hutype)⟩,
    fun v hv htype => ?_, fun t hlive hnamed => ?_, fun v hv w hw htype htype' howner hname => ?_⟩
  · rcases List.mem_append.1 hv with hv | hv
    · obtain ⟨m', hm', t, hdeclares⟩ := h.types v hv htype
      exact ⟨m', List.mem_append_left _ hm', t, hdeclares.mono hforms⟩
    · cases List.mem_singleton.1 hv
      exact ⟨m, List.mem_append_left _ hm, _, hu⟩
  · have hlt : t.index < a.size + 1 := by
      have hlive : t.index < (a.forms ++ [form]).length := hlive
      rwa [List.length_append] at hlive
    rcases Nat.lt_succ_iff_lt_or_eq.1 hlt with hlt | heq
    · have hold := List.getElem?_eq_getElem hlt
      rw [form_of_forms (getElem?_mono hforms hold), ← form_of_forms hold] at hnamed
      obtain ⟨v, hv, hrest⟩ := h.units t hlt hnamed
      exact ⟨v, List.mem_append_left _ hv, hrest⟩
    · exact ⟨u, List.mem_append_right _ List.mem_cons_self, hutype, hu.type.trans (by rw [← heq])⟩
  · rcases List.mem_append.1 hv with hv | hv <;> rcases List.mem_append.1 hw with hw | hw
    · exact h.names v hv w hw htype htype' howner hname
    · cases List.mem_singleton.1 hw
      exact absurd hname (hfresh v hv htype howner)
    · cases List.mem_singleton.1 hv
      exact absurd hname.symm (hfresh w hw htype' howner.symm)
    · rw [List.mem_singleton.1 hv, List.mem_singleton.1 hw]

end Linked

/-! ### Graphs and their units -/

theorem Cfg.signature_of_ofBody {config : Config} {scope : Scope} {sig : Signature}
    {body : Block} {a : Arena} {c : Cfg} (h : (ofBody config scope sig body a).1 = .ok c) : c.signature = sig := by
  rcases hrun : lowerBody config scope sig body a with ⟨e | f, b⟩
  · rw [ofBody_of_error config scope sig body a hrun] at h
    cases h
  · rw [ofBody_of_ok config scope sig body a hrun] at h
    cases hclose : closeExits sig (b.graph.addEntry f.entry) with
    | error e =>
      rw [hclose] at h
      cases h
    | ok g =>
      rw [hclose] at h
      cases h
      rfl

theorem Scope.unit_of_lowerFunction {s : Scope} {config : Config} {unit : UnitId} {fn : FnDecl}
    {a : Arena} {c : Cfg} (h : (s.lowerFunction config unit fn a).1 = .ok c) :
    c.signature.unit = unit := by
  have hrun : s.lowerFunction config unit fn a = (.ok c, (s.lowerFunction config unit fn a).2) :=
    Prod.ext h rfl
  generalize (s.lowerFunction config unit fn a).2 = b at hrun
  rw [lowerFunction] at hrun
  split at hrun
  · cases hrun
  · split at hrun
    · cases hrun
    · obtain ⟨sig, a₁, hsig, hbody⟩ := bind_ok hrun
      obtain ⟨params, a₂, -, hrest⟩ := bind_ok hsig
      obtain ⟨result, a₃, -, hpure⟩ := bind_ok hrest
      rw [Cfg.signature_of_ofBody (congrArg Prod.fst hbody)]
      cases hpure
      rfl

namespace Assembly

open Program

variable {f : FileSetting} {p q : Program} {ds : List TypeDecl} {part : Part}

theorem unit_of_outcome {r : FnOutcome} {c : Cfg} (hr : part.outcome? f p = some r)
    (hc : r.result = .ok c) : c.signature.unit = r.unit := by
  have hsite (site : Site) (fn : FnDecl) (h : (site.outcome f p fn).result = .ok c) :
      c.signature.unit = (site.outcome f p fn).unit := by
    cases site with
    | module => exact Scope.unit_of_lowerFunction h
    | impl generics self =>
      simp only [Site.outcome, Site.lower, Site.unit] at h ⊢
      cases htarget : implTarget? f p self.type with
      | none =>
        rw [htarget] at h
        cases h
      | some target =>
        rw [htarget] at h
        exact Scope.unit_of_lowerFunction h
  cases part with
  | function fn =>
    cases hr
    exact hsite .module fn hc
  | member generics self m =>
    cases m with
    | method fn =>
      cases hr
      exact hsite (.impl generics self) fn hc
    | _ => cases hr
  | _ => cases hr

theorem mem_graphsOf {id : UnitId} {log : List FnOutcome} {c : Cfg} (h : c ∈ graphsOf id log) :
    ∃ r ∈ log, r.unit = id ∧ r.result = .ok c := by
  obtain ⟨r, hr, hc⟩ := List.mem_filterMap.1 h
  split at hc
  · refine ⟨r, hr, ‹_›, ?_⟩
    cases hresult : r.result with
    | error e =>
      rw [hresult] at hc
      cases hc
    | ok d =>
      rw [hresult] at hc
      cases hc
      rfl
  · cases hc

/-- A program that keeps its units, types and graphs in step. -/
structure InStep (p : Program) : Prop where
  linked : Linked (p.units.map SourceUnit.bare) p.arena
  graphs : ∀ id, ∀ c ∈ p.graphs id, c.signature.unit = id

theorem InStep.withArena (h : InStep p) {a : Arena} (ha : Widened p.arena a) :
    InStep { p with arena := a } := ⟨h.linked.widened ha, h.graphs⟩

theorem InStep.opened (h : InStep p) (f : FileSetting) : InStep (opened f p) := by
  refine ⟨?_, fun id c hc => ?_⟩
  · rw [Assembly.opened, addUnit, List.map_append]
    exact h.linked.addModule ..
  · rw [Assembly.opened, graphs_addUnit rfl] at hc
    exact h.graphs id c hc

theorem form?_kind {item : Item} {d : TypeDecl} (h : item.type? = some d) (owner : UnitId) :
    d.kind.form? d.name owner = some (d.form owner) := by
  cases item <;> cases h <;> rfl

theorem InStep.linked_register (h : InStep p) (hcat : Catalogue f ds p) {item : Item}
    {d : TypeDecl} (hd : item.type? = some d)
    (hnew : p.arena.findNamed d.name f.module = none) :
    Linked ((p.register f d).units.map SourceUnit.bare) (p.register f d).arena := by
  obtain ⟨m, hm, -, howner⟩ := hcat.module
  have hid : m.id = f.module := hcat.indexed.ids _ m hm
  have hmem : m.bare ∈ p.units.map SourceUnit.bare := List.mem_map_of_mem (List.mem_of_getElem? hm)
  have hlast : (p.arena.add (d.form f.module)).forms[p.arena.size]? = some (d.form f.module) :=
    List.getElem?_concat_length
  rw [register, addUnit, List.map_append]
  refine h.linked.addType (m := m.bare) ⟨⟨h.linked.kind_eq hmem howner, ?_⟩, ?_, rfl,
    live_of_forms hlast, ?_⟩ hmem ?_
  · exact hid.symm ▸ hcat.module_lt
  · exact congrArg some hid.symm
  · rw [form_of_forms (t := ⟨p.arena.size⟩) hlast]
    exact hid.symm ▸ form?_kind hd f.module
  · exact hid.symm ▸ hnew

/-- **The step of assembly.** -/
theorem InStep.run (h : InStep p) (hcat : Catalogue f ds p) (hpart : part.Stands ds) :
    InStep (part.run f p).2 := by
  have hsettled := settled_run hcat _ hpart
  generalize part.run f p = r at hsettled
  cases hsettled with
  | @done q hq =>
    refine ⟨?_, fun id c hc => ?_⟩
    · rcases hq.change with hkept | ⟨item, d, -, hd, hnew, rfl⟩
      · exact hkept.units ▸ h.linked.widened hkept.arena
      · exact h.linked_register hcat hd hnew
    · rw [hq.graphs, List.mem_append] at hc
      rcases hc with hc | hc
      · exact h.graphs id c hc
      · obtain ⟨r, hr, rfl, hresult⟩ := mem_graphsOf hc
        exact unit_of_outcome (Option.mem_toList.1 hr) hresult
  | reported _ he =>
    have hfailed := h.withArena he.grown.widened
    exact ⟨hfailed.linked, hfailed.graphs⟩
  | ended _ he => exact h.withArena he.grown.widened

/-- What parts keep where the types of a file are catalogued is kept by the file. -/
theorem assemble_invariant {I : Program → Prop} {start : Program} (hstart : start.Indexed)
    {config : Config} {file : String} (hf : f = ⟨config, file, start.nextUnit⟩)
    (items : List Item)
    (hrun : ∀ (ds : List TypeDecl) (p : Program) (part : Part), Catalogue f ds p →
      part.Stands ds → I p → I (part.run f p).2)
    (hopened : I (opened f start)) : I (assemble config file items start).2 := by
  have hfirst : Catalogue f [] (opened f start) :=
    catalogue_start hstart (congrArg FileSetting.module hf)
  have hdeclare : ∃ ds, Catalogue f ds (each (Part.run f) (items.map .declare) (opened f start)).2 ∧
      I (each (Part.run f) (items.map .declare) (opened f start)).2 := by
    refine each_invariant (I := fun q => ∃ ds, Catalogue f ds q ∧ I q)
      (fun part hpart q hq => ?_) ⟨[], hfirst, hopened⟩
    obtain ⟨ds, hcat, hq⟩ := hq
    obtain ⟨item, -, rfl⟩ := List.mem_map.1 hpart
    exact ⟨_, hcat.declare item, hrun ds q (.declare item) hcat trivial hq⟩
  rw [assemble_parts hstart, ← hf, parts, List.append_assoc, each_append, bind_run]
  rcases hout : each (Part.run f) (items.map .declare) (opened f start) with ⟨_ | _, p⟩
  · rw [hout] at hdeclare
    obtain ⟨ds, -, hp⟩ := hdeclare
    exact hp
  · rw [hout] at hdeclare
    obtain ⟨-, -, hp⟩ := hdeclare
    rw [each_map] at hout
    -- the other passes find the catalogue of all types of the file
    refine (each_invariant (I := fun q => Catalogue f ([] ++ Ast.types items) q ∧ I q)
      (fun part hpart q hq => ?_) ⟨hfirst.declares hout, hp⟩).2
    obtain ⟨hcat, hq⟩ := hq
    have hstands : part.Stands ([] ++ Ast.types items) ∧
        ∀ i d, part = .declare i → i.type? ≠ some d := by
      rcases List.mem_append.1 hpart with hpart | hpart
      · exact resolveParts_stands part hpart
      · obtain ⟨item, -, hitem⟩ := List.mem_flatMap.1 hpart
        exact lowerParts_stands hitem
    exact ⟨hcat.keep (hcat.kept_run part hstands.1 hstands.2), hrun _ q part hcat hstands.1 hq⟩

end Assembly

namespace Program

variable {p : Program}

open Assembly

theorem Assembled.inStep (h : Assembled p) : InStep p := by
  induction h with
  | empty => exact ⟨linked_empty, fun id c hc => by cases hc⟩
  | step config file items hp ih =>
    exact assemble_invariant hp.indexed rfl items (fun ds q part hcat hpart hq => hq.run hcat hpart)
      (ih.opened _)

theorem Indexed.eq_of_id (h : p.Indexed) {u v : SourceUnit} (hu : u ∈ p.units) (hv : v ∈ p.units)
    (hid : u.id = v.id) : u = v := by
  have hat := h.unit?_id hu
  rw [hid, h.unit?_id hv] at hat
  exact (Option.some.inj hat).symm

theorem Indexed.wellFormed (h : p.Indexed) (hp : InStep p) : p.WellFormed := by
  have hbare {u : SourceUnit} (hu : u ∈ p.units) : u.bare ∈ p.units.map SourceUnit.bare :=
    List.mem_map_of_mem hu
  have htypes : ∀ u ∈ p.typeUnits, ∃ m ∈ p.units, ∃ t, u.Declares p.arena m t := by
    intro u hu
    obtain ⟨_, hmodule, t, hdeclares⟩ := hp.linked.types u.bare (hbare hu.1) hu.2
    obtain ⟨m, hm, rfl⟩ := List.mem_map.1 hmodule
    exact ⟨m, hm, t, hdeclares.module, hdeclares.owner, hdeclares.type, hdeclares.form⟩
  have hnames : ∀ u ∈ p.typeUnits, ∀ v ∈ p.typeUnits, u.owner = v.owner → u.name = v.name → u = v :=
    fun u hu v hv howner hname => h.eq_of_id hu.1 hv.1
      (hp.linked.names u.bare (hbare hu.1) v.bare (hbare hv.1) hu.2 hv.2 howner hname)
  refine ⟨h.ids, fun u hu => hp.linked.modules u.bare (hbare hu), htypes, ⟨?_, ?_, ?_⟩, hnames, ?_⟩
  · intro u hu
    obtain ⟨m, -, t, hdeclares⟩ := htypes u hu
    obtain ⟨hlive, hform⟩ := hdeclares.form
    exact ⟨t, ⟨hlive, UnitKind.isNamed_of_form? hform⟩, hdeclares.type.symm⟩
  · -- units of one type have the name and the owner that its form has
    intro u hu v hv htype
    obtain ⟨m, -, t, hdeclares⟩ := htypes u hu
    obtain ⟨m', -, t', hdeclares'⟩ := htypes v hv
    cases hdeclares.type.symm.trans (htype.trans hdeclares'.type)
    obtain ⟨hname, howner⟩ := UnitKind.form?_inj hdeclares.form.2 hdeclares'.form.2
    exact hnames u hu v hv (by rw [hdeclares.owner, hdeclares'.owner, howner]) hname
  · rintro _ ⟨t, ⟨hlive, hnamed⟩, rfl⟩
    obtain ⟨_, hunit, htype, hut⟩ := hp.linked.units t hlive hnamed
    obtain ⟨u, hu, rfl⟩ := List.mem_map.1 hunit
    exact ⟨u, ⟨hu, htype⟩, hut⟩
  · intro u hu c hc
    refine hp.graphs u.id c ?_
    rw [graphs, h.unit?_id hu]
    exact hc

/-- **Programs are well formed.**  However many of the items of its files fail, every program
that is built has its units at their ids, one unit for each struct and enum, with the module,
name and type that the unit says, no name declared twice in a module, and each graph in the
unit that its signature names. -/
theorem build_wellFormed :
    (∀ config file source parse p, build config file source parse = .ok p → p.WellFormed) ∧
    ∀ config read files parse p, buildFiles config read files parse = .ok p → p.WellFormed := by
  have hassembled {p : Program} (h : Assembled p) : p.WellFormed := h.indexed.wellFormed h.inStep
  exact ⟨fun _ _ _ _ _ hp => hassembled (Assembled.empty.addSource hp),
    fun _ _ _ _ _ hp => hassembled (Assembled.empty.addFiles hp)⟩

/-- A struct, an enum of its name, which is refused, and a method of a later type. -/
def repeatedNames : String := "struct P { x: i32 } enum P { A } struct Q; impl Q { fn f(q: &P) {} }"

theorem build_wellFormed_repeatedNames :
    (∃ p, build {} "a.rs" repeatedNames = .ok p ∧
      (p.units.map (fun u => u.cfgs.length) == [0, 0, 1] && p.diagnostics.length == 1) = true ∧
      p.WellFormed) ∧
    ∃ p, buildFiles {} (fun _ => some repeatedNames) ["a.rs", "b.rs"] = .ok p ∧
      (p.units.length == 6 && p.diagnostics.length == 2) = true ∧ p.WellFormed := by
  obtain ⟨hbuild, hfiles⟩ := build_wellFormed
  obtain ⟨p, hp, hsize⟩ := exists_of_any (x := build {} "a.rs" repeatedNames)
    (P := fun p => p.units.map (fun u => u.cfgs.length) == [0, 0, 1] && p.diagnostics.length == 1)
    (by decide +kernel)
  obtain ⟨q, hq, hsize'⟩ := exists_of_any
    (x := buildFiles {} (fun _ => some repeatedNames) ["a.rs", "b.rs"])
    (P := fun p => p.units.length == 6 && p.diagnostics.length == 2) (by decide +kernel)
  exact ⟨⟨p, hp, hsize, hbuild _ _ _ _ p hp⟩, ⟨q, hq, hsize', hfiles _ _ _ _ q hq⟩⟩

end Program

end RustFlow
