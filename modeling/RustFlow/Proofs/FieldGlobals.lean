/-
# Fields and globals

A struct has its fields twice: in the layout of its type, and as globals of its unit.  They
agree as long as no constant of an `impl` block has the name of a field, for a global takes
the place of an older one of its name, and as long as no two fields share a name
(`Ast.keepsFields`).

Each unit of a struct or enum is followed together with the fields of its type
(`Program.Each`).  Up to the second pass the units of a file have no globals; that pass gives
each of them its fields once, and the constants of the third stand behind them (`Shown`).
-/

import RustFlow.Proofs.Grafting
import RustFlow.Proofs.WellFormed

namespace RustFlow

open Arena Attempt Ast

/-! ### The check on files -/

namespace Ast

/-- The constants among the members of an `impl` block. -/
def Member.const? : Member → Option String
  | .const name _ _ => some name
  | _ => none

/-- The constants that an item gives the struct or enum of a name. -/
def Item.constsFor (owner : String) : Item → List String
  | .impl _ self members =>
    if self.type.implName? = some owner then members.filterMap Member.const? else []
  | _ => []

/-- Whether the fields of an item have names of their own, which no constant has. -/
def Item.keepsFields (items : List Item) : Item → Bool
  | .struct name _ _ fields =>
    let names := fieldNames 0 fields.toList
    decide (names.Nodup ∧ ∀ x ∈ items.flatMap (Item.constsFor name), x ∉ names)
  | _ => true

/-- Whether no global of a struct of a file takes the place of a field: structs and enums
stand at different places, and each struct keeps its fields. -/
def keepsFields (items : List Item) : Bool :=
  ((types items).map TypeDecl.pos).Nodup ∧ ∀ item ∈ items, item.keepsFields items

end Ast

/-! ### Units -/

namespace SourceUnit

variable {u : SourceUnit} {fields : List Field} {g : Global}

/-- The first globals of a unit are these fields, and each field is found by its name. -/
def Shows (u : SourceUnit) (fields : List Field) : Prop :=
  (fields.map fun x => (x.name, x.type)) <+: (u.globals.map fun g => (g.name, g.type)) ∧
    ∀ x ∈ fields, ∃ g ∈ u.global? x.name, g.type = x.type

instance (u : SourceUnit) (fields : List Field) : Decidable (u.Shows fields) :=
  inferInstanceAs (Decidable (_ ∧ _))

/-- A unit that starts with globals for these fields, whose names are distinct. -/
structure StartsWith (u : SourceUnit) (fields : List Field) : Prop where
  nodup : (fields.map Field.name).Nodup
  split : ∃ gs hs, u.globals = gs ++ hs ∧
    (gs.map fun g => (g.name, g.type)) = fields.map fun x => (x.name, x.type)

theorem names_of_entries {gs : List Global}
    (h : (gs.map fun g => (g.name, g.type)) = fields.map fun x => (x.name, x.type)) :
    gs.map Global.name = fields.map Field.name := by
  have hnames := congrArg (List.map Prod.fst) h
  rwa [List.map_map, List.map_map] at hnames

theorem StartsWith.shows (h : u.StartsWith fields) : u.Shows fields := by
  obtain ⟨gs, hs, hu, hgs⟩ := h.split
  refine ⟨⟨hs.map fun g => (g.name, g.type), ?_⟩, fun x hx => ?_⟩
  · rw [hu, List.map_append, hgs]
  · obtain ⟨g, hg, heq⟩ : ∃ g ∈ gs, (g.name, g.type) = (x.name, x.type) :=
      List.mem_map.1 (hgs ▸ List.mem_map_of_mem hx)
    obtain ⟨hname, htype⟩ := Prod.mk.inj heq
    obtain ⟨g', hfound⟩ : ∃ g', gs.find? (fun g => g.name == x.name) = some g' :=
      Option.isSome_iff_exists.1 (List.find?_isSome.2 ⟨g, hg, beq_iff_eq.2 hname⟩)
    -- names are distinct, so what is found by its name is the global of the field
    have hsame : g' = g := by
      refine List.inj_on_of_nodup_map (names_of_entries hgs ▸ h.nodup)
        (List.mem_of_find?_eq_some hfound) hg ?_
      have hname' := List.find?_some hfound
      exact (beq_iff_eq.1 hname').trans hname.symm
    refine ⟨g, ?_, htype⟩
    rw [global?, hu, List.find?_append, hfound, hsame]
    rfl

/-- A global of another name takes the place of no field. -/
theorem StartsWith.addGlobal (h : u.StartsWith fields) (hg : g.name ∉ fields.map Field.name) :
    (u.addGlobal g).StartsWith fields := by
  obtain ⟨gs, hs, hu, hgs⟩ := h.split
  refine ⟨h.nodup, ?_⟩
  unfold SourceUnit.addGlobal
  split
  · refine ⟨gs, hs.map fun h => if h.name == g.name then g else h, ?_, hgs⟩
    dsimp only
    rw [hu, List.map_append]
    refine congrArg (· ++ _) ?_
    nth_rw 2 [← List.map_id gs]
    refine List.map_congr_left fun x hx => if_neg fun hname => hg ?_
    rw [← names_of_entries hgs, ← beq_iff_eq.1 hname]
    exact List.mem_map_of_mem hx
  · exact ⟨gs, hs ++ [g], by dsimp only; rw [hu, List.append_assoc], hgs⟩

theorem globals_addGlobals {gs : List Global} (h : ((u.globals ++ gs).map Global.name).Nodup) :
    (gs.foldl SourceUnit.addGlobal u).globals = u.globals ++ gs := by
  induction gs generalizing u with
  | nil => exact (List.append_nil _).symm
  | cons g gs ih =>
    have hnew : u.global? g.name = none := by
      refine List.find?_eq_none.2 fun x hx hname => ?_
      rw [List.map_append, List.nodup_append] at h
      exact h.2.2 _ (List.mem_map_of_mem hx) _ (List.mem_map_of_mem List.mem_cons_self)
        (beq_iff_eq.1 hname)
    have hglobals : (u.addGlobal g).globals = u.globals ++ [g] := by
      rw [SourceUnit.addGlobal, hnew]
      rfl
    rw [List.foldl_cons, ih, hglobals, List.append_assoc, List.singleton_append]
    rwa [hglobals, List.append_assoc, List.singleton_append]

theorem entries_fieldGlobals (f : FileSetting) {i : Nat} {decls : List FieldDecl}
    (h : fields.map Field.name = Ast.fieldNames i decls) :
    ((List.zipWith (Assembly.fieldGlobal f) decls fields).map fun g => (g.name, g.type)) =
      fields.map fun x => (x.name, x.type) := by
  induction decls generalizing i fields with
  | nil => rw [List.map_eq_nil_iff.1 h, List.zipWith_nil_right, List.map_nil, List.map_nil]
  | cons d decls ih =>
    cases fields with
    | nil => cases h
    | cons x fields => exact congrArg _ (ih (List.cons.inj h).2)

theorem startsWith_addGlobals (f : FileSetting) {decls : List FieldDecl} (hu : u.globals = [])
    (hnames : fields.map Field.name = Ast.fieldNames 0 decls)
    (hnodup : (fields.map Field.name).Nodup) :
    ((List.zipWith (Assembly.fieldGlobal f) decls fields).foldl SourceUnit.addGlobal u).StartsWith
      fields := by
  have hentries := entries_fieldGlobals f hnames
  refine ⟨hnodup, _, [], ?_, hentries⟩
  rw [globals_addGlobals (by rwa [hu, List.nil_append, names_of_entries hentries]), hu,
    List.nil_append, List.append_nil]

end SourceUnit

namespace Arena

variable {a : Arena} {s t : TypeId} {l : Layout}

theorem fields_eq_of_layouts {b : Arena} (h : b.layouts = a.layouts) (t : TypeId) :
    b.fields t = a.fields t := by
  rw [fields, fields, layout?, layout?, h]

theorem fields_setLayout_of_ne (h : t ≠ s) : (a.setLayout s l).fields t = a.fields t := by
  rw [fields, fields, layout?_setLayout, if_neg h]

theorem fields_setLayout_struct (fields : List Field) :
    (a.setLayout t (.struct fields)).fields t = fields := by
  rw [Arena.fields, layout?_setLayout, if_pos rfl]

theorem fields_setLayout_enum (vs : List Variant) : (a.setLayout t (.enum vs)).fields t = [] := by
  rw [Arena.fields, layout?_setLayout, if_pos rfl]

theorem fields_eq_nil_of_size_le (ha : a.Sound) (ht : a.size ≤ t.index) : a.fields t = [] := by
  rw [fields, layout?_eq_none_of_size_le ha ht]

end Arena

/-! ### Programs -/

namespace Program

variable {p q : Program} {P P' : SourceUnit → List Field → Prop}

/-- A property of every unit of a struct or enum together with the fields of its type. -/
def Each (P : SourceUnit → List Field → Prop) (p : Program) : Prop :=
  ∀ u ∈ p.units, ∀ t, u.type = some t → P u (p.arena.fields t)

/-- The structs of a program show the fields of their types. -/
def StructsMatch (p : Program) : Prop :=
  ∀ u ∈ p.units, u.kind = .struct → ∀ t ∈ u.type, u.Shows (p.arena.fields t)

instance (p : Program) : Decidable p.StructsMatch :=
  inferInstanceAs (Decidable (∀ u ∈ p.units, _))

theorem Each.imp (h : Each P p) (hP : ∀ u fields, P u fields → P' u fields) : Each P' p :=
  fun u hu t ht => hP u _ (h u hu t ht)

theorem Each.withArena (h : Each P p) {a : Arena} (ha : a.layouts = p.arena.layouts) :
    Each P { p with arena := a } := fun u hu t ht => fields_eq_of_layouts ha t ▸ h u hu t ht

/-- What holds after one unit and the arena have changed. -/
theorem each_modifyUnit (hp : p.Indexed) {a : Arena} {g : SourceUnit → SourceUnit} {id : UnitId}
    (htype : ∀ u, (g u).bare = u.bare)
    (hat : ∀ u ∈ p.units, u.id = id → ∀ t, u.type = some t → P (g u) (a.fields t))
    (hother : ∀ u ∈ p.units, u.id ≠ id → ∀ t, u.type = some t → P u (a.fields t)) :
    Each P ({ p with arena := a }.modifyUnit id g) := by
  intro v hv t ht
  obtain ⟨i, hi⟩ := List.mem_iff_getElem?.1 hv
  rw [getElem?_modifyUnit, Option.map_eq_some_iff] at hi
  obtain ⟨u, hu, rfl⟩ := hi
  have hmem : u ∈ p.units := List.mem_of_getElem? hu
  have hid : u.id = ⟨i⟩ := hp.ids i u hu
  by_cases heq : id.index = i
  · rw [if_pos heq] at ht ⊢
    exact hat u hmem (hid.trans (congrArg UnitId.mk heq.symm)) t
      ((congrArg SourceUnit.type (htype u)).symm.trans ht)
  · rw [if_neg heq] at ht ⊢
    exact hother u hmem (fun h => heq (congrArg UnitId.index (hid.symm.trans h)).symm) t ht

theorem WellFormed.eq_of_type (h : p.WellFormed) {u v : SourceUnit} {t : TypeId} (hu : u ∈ p.units)
    (hv : v ∈ p.units) (hut : u.type = some t) (hvt : v.type = some t) : u = v := by
  have htyped {w : SourceUnit} (hw : w ∈ p.units) (hwt : w.type = some t) : w ∈ p.typeUnits := by
    refine ⟨hw, fun hkind => ?_⟩
    rw [(h.modules w hw hkind).2] at hwt
    cases hwt
  exact h.bijection.injOn (htyped hu hut) (htyped hv hvt) (hut.trans hvt.symm)

theorem WellFormed.type_eq_none (h : p.WellFormed) {u : SourceUnit} (hu : u ∈ p.units)
    (howner : u.owner = none) : u.type = none := by
  by_cases hkind : u.kind = .module
  · exact (h.modules u hu hkind).2
  · obtain ⟨m, -, t, hdeclares⟩ := h.types u ⟨hu, hkind⟩
    rw [hdeclares.owner] at howner
    cases howner

end Program

namespace Assembly

open Program

variable {f : FileSetting} {p q : Program} {ds : List TypeDecl} {item : Item}
  {items rest : List Item}  {P P' : SourceUnit → List Field → Prop}

theorem Settled.each {label : String × String} {S : Program → Prop} {E : Error → Arena → Prop}
    {r : Except Error Unit × Program} (h : Settled f label p S E r) (hp : Each P p)
    (hE : ∀ e a, E e a → a.layouts = p.arena.layouts) (hS : ∀ q, S q → Each P q) : Each P r.2 := by
  cases h with
  | done hq => exact hS _ hq
  | reported _ he => exact hp.withArena (hE _ _ he)
  | ended _ he => exact hp.withArena (hE _ _ he)

/-- How far a unit is while the items of a file are assembled and some are still to be
resolved. -/
structure Shown (f : FileSetting) (items rest : List Item) (u : SourceUnit)
    (fields : List Field) : Prop where
  starts : u.StartsWith fields
  /-- No constant of the file has the name of a field. -/
  spared : u.owner = some f.module → ∀ x ∈ items.flatMap (Item.constsFor u.name),
    x ∉ fields.map Field.name
  /-- What is to be resolved has got nothing yet. -/
  fresh : u.owner = some f.module → ∀ item ∈ rest, ∀ d, item.type? = some d →
    u.location = f.locate d.pos → u.globals = []

theorem startsWith_nil (u : SourceUnit) : u.StartsWith [] := ⟨List.nodup_nil, [], u.globals, rfl, rfl⟩

theorem Shown.addCfg {u : SourceUnit} {fields : List Field} (h : Shown f items rest u fields) (c : Cfg) :
    Shown f items rest (u.addCfg c) fields :=
  ⟨⟨h.starts.nodup, h.starts.split⟩, h.spared, h.fresh⟩

theorem shown_of_bare {u v : SourceUnit} {fields : List Field} (hbare : v.bare = u.bare)
    (hstarts : v.StartsWith fields)
    (hspared : ∀ x ∈ items.flatMap (Item.constsFor u.name), x ∉ fields.map Field.name)
    (hfresh : ∀ item ∈ rest, ∀ d, item.type? = some d → u.location ≠ f.locate d.pos) :
    Shown f items rest v fields := by
  have hname : v.name = u.name := (congrArg SourceUnit.name hbare :)
  have hloc : v.location = u.location := (congrArg SourceUnit.location hbare :)
  exact ⟨hstarts, fun _ => hname ▸ hspared,
    fun _ i hi d hd hat => absurd (hloc.symm.trans hat) (hfresh i hi d hd)⟩

/-- A program in the course of assembly. -/
structure Assembling (f : FileSetting) (items rest : List Item) (ds : List TypeDecl)
    (p : Program) : Prop where
  catalogue : Catalogue f ds p
  inStep : InStep p
  units : Each (Shown f items rest) p

theorem Assembling.wellFormed (h : Assembling f items rest ds p) : p.WellFormed :=
  h.catalogue.indexed.wellFormed h.inStep

theorem Assembling.refuse (h : Assembling f items rest ds p) (what : Construct) (pos : Position)
    (name : String) : Each (Shown f items rest) (isolate f f.module name (f.scope.refuse what pos) p).2 := by
  have htried := tried_refuse (p := p) (S := fun _ => False) (E := fun _ a => a = p.arena) f.scope
    what pos rfl
  have hsettled : Settled f (moduleName f.file, name) p _ _ (isolate f f.module name _ p) :=
    htried.isolate h.catalogue.unitName_module rfl
  exact hsettled.each h.units (fun _ _ ha => ha ▸ rfl) fun _ hq => hq.elim

theorem Assembling.declare (h : Assembling f items rest ds p) (item : Item) :
    Assembling f items rest (ds ++ item.type?.toList) (declareItem f item p).2 := by
  have hstands : (Part.declare item).Stands ds := trivial
  refine ⟨h.catalogue.declare item, h.inStep.run h.catalogue hstands, ?_⟩
  cases hd : item.type? with
  | some d =>
    refine (settled_declare h.catalogue hd).each h.units (fun e a he => he.2.2 ▸ rfl) fun q hq => ?_
    rw [hq.2]
    intro u hu t ht
    rcases List.mem_append.1 hu with hu | hu
    · exact h.units u hu t ht
    · cases List.mem_singleton.1 hu
      cases ht
      have hnil : (p.register f d).arena.fields ⟨p.arena.size⟩ = [] :=
        fields_eq_nil_of_size_le (a := p.arena) h.catalogue.indexed.arena (Nat.le_refl _)
      rw [hnil]
      exact ⟨startsWith_nil _, fun _ _ _ => List.not_mem_nil, fun _ _ _ _ _ _ => rfl⟩
  | none =>
    cases item with
    | other pos what name =>
      exact h.refuse what pos name
    | struct => cases hd
    | enum => cases hd
    | _ => exact h.units

theorem Assembling.declares (h : Assembling f items rest ds p) {xs : List Item}
    (hrun : each (declareItem f) xs p = (.ok (), q)) :
    Assembling f items rest (ds ++ Ast.types xs) q := by
  have hinv : ∃ ds', Assembling f items rest ds' (each (declareItem f) xs p).2 := by
    refine each_invariant (I := fun q => ∃ ds', Assembling f items rest ds' q)
      (fun item _ r hr => ?_) ⟨ds, h⟩
    obtain ⟨ds', hr⟩ := hr
    exact ⟨_, hr.declare item⟩
  rw [hrun] at hinv
  obtain ⟨ds', hq⟩ := hinv
  exact ⟨h.catalogue.declares hrun, hq.inStep, hq.units⟩

theorem Assembling.fields_grown (h : Assembling f items rest ds p) {a : Arena} (ha : Grown p.arena a)
    {u : SourceUnit} (hu : u ∈ p.units) {t : TypeId} (ht : u.type = some t) :
    Shown f items rest u (a.fields t) := fields_eq_of_layouts ha.layouts t ▸ h.units u hu t ht

/-- What is found for a struct or enum to be resolved: a unit of the file that has got
nothing yet, and the only one of its type. -/
theorem Assembling.registered (h : Assembling f items (item :: rest) ds p) {d : TypeDecl}
    {t : TypeId} {u : SourceUnit} (hd : item.type? = some d)
    (hfound : registered? f p d.name d.pos = some (t, u)) :
    u ∈ p.units ∧ u.type = some t ∧ u.name = d.name ∧ u.location = f.locate d.pos ∧ u.globals = [] := by
  obtain ⟨hdeclared, hloc⟩ := Option.filter_eq_some_iff.1 hfound
  obtain ⟨hname, howner⟩ := h.catalogue.unit_of_declared hdeclared
  have hmem := mem_of_declared hdeclared
  have hfind := List.find?_some (declared?_eq_some hdeclared).2
  have htype : u.type = some t := beq_iff_eq.1 hfind
  have hat : u.location = f.locate d.pos := beq_iff_eq.1 hloc
  exact ⟨hmem, htype, hname, hat,
    (h.units u hmem t htype).fresh howner item List.mem_cons_self d hd hat⟩

theorem Assembling.resolve (h : Assembling f items (item :: rest) ds p) (hitem : item.keepsFields items)
    (hpos : ∀ d, item.type? = some d → ∀ i ∈ rest, ∀ d', i.type? = some d' → d.pos ≠ d'.pos) :
    Assembling f items rest ds (resolveItem f item p).2 := by
  have hkept := h.catalogue.kept_run (.resolve item) trivial fun _ _ heq => by cases heq
  have hrest : Assembling f items rest ds p := ⟨h.catalogue, h.inStep, h.units.imp fun u fields hu =>
    ⟨hu.starts, hu.spared, fun ho i hi => hu.fresh ho i (List.mem_cons_of_mem _ hi)⟩⟩
  have hstands : (Part.resolve item).Stands ds := trivial
  refine ⟨h.catalogue.keep hkept, h.inStep.run h.catalogue hstands, ?_⟩
  refine (settled_resolve h.catalogue item).each hrest.units (fun _ _ ha => ha.layouts) fun q hq => ?_
  obtain ⟨-, hedit⟩ := hq
  -- where an item stands, no other one is to be resolved
  have hdone {u : SourceUnit} {d : TypeDecl} (hd : item.type? = some d)
      (hu : u.location = f.locate d.pos) (i : Item) (hi : i ∈ rest) (d' : TypeDecl)
      (hd' : i.type? = some d') : u.location ≠ f.locate d'.pos := fun hu' =>
    hpos d hd i hi d' hd' (Location.mk.inj (hu.symm.trans hu')).2
  cases hedit with
  | none => exact hrest.units
  | @fields name pos generics decls t u fields a hfound hnames ha =>
    obtain ⟨hmem, htype, hname, hat, hglobals⟩ := h.registered (d := ⟨.struct, name, pos⟩) rfl hfound
    have hkeeps := of_decide_eq_true hitem
    have hbare := SourceUnit.bare_addGlobals (List.zipWith (fieldGlobal f) decls.toList fields)
    refine each_modifyUnit h.catalogue.indexed hbare (fun v hv hid t' ht' => ?_)
      fun v hv hid t' ht' => ?_
    · obtain rfl := h.catalogue.indexed.eq_of_id hv hmem hid
      obtain rfl := Option.some.inj (htype.symm.trans ht')
      rw [fields_setLayout_struct]
      refine shown_of_bare (hbare v) ?_ ?_ (hdone rfl hat)
      · exact SourceUnit.startsWith_addGlobals f hglobals hnames (hnames ▸ hkeeps.1)
      · rw [hname, hnames]
        exact hkeeps.2
    · have hne : t' ≠ t := fun heq => hid (congrArg SourceUnit.id
        (h.wellFormed.eq_of_type hv hmem (heq ▸ ht') htype))
      rw [fields_setLayout_of_ne hne]
      exact hrest.fields_grown ha hv ht'
  | @variants name pos generics variants t u vs a hfound ha =>
    obtain ⟨hmem, htype, hname, hat, hglobals⟩ := h.registered (d := ⟨.enum, name, pos⟩) rfl hfound
    intro v hv t' ht'
    by_cases heq : t' = t
    · subst heq
      obtain rfl := h.wellFormed.eq_of_type hv hmem ht' htype
      rw [fields_setLayout_enum]
      exact ⟨startsWith_nil _, fun _ _ _ => List.not_mem_nil, fun _ _ _ _ _ _ => hglobals⟩
    · rw [fields_setLayout_of_ne heq]
      exact hrest.fields_grown ha hv ht'
  | @constant name pos type t a ha =>
    refine each_modifyUnit h.catalogue.indexed (fun u => u.bare_addGlobal _) (fun v hv hid t' ht' => ?_)
      fun v hv _ t' ht' => hrest.fields_grown ha hv ht'
    obtain ⟨m, hm, -, howner⟩ := h.catalogue.module
    have hv' : v = m := Option.some.inj ((h.catalogue.indexed.unit?_id hv).symm.trans (hid ▸ hm))
    rw [h.wellFormed.type_eq_none hv (hv' ▸ howner)] at ht'
    cases ht'

theorem Assembling.resolves (hkeeps : ∀ item ∈ items, item.keepsFields items) {xs : List Item}
    (h : Assembling f items xs ds p) (hxs : xs ⊆ items) (hpos : ((Ast.types xs).map TypeDecl.pos).Nodup)
    (hrun : each (resolveItem f) xs p = (.ok (), q)) : Assembling f items [] ds q := by
  induction xs generalizing p with
  | nil =>
    cases hrun
    exact h
  | cons item rest ih =>
    obtain ⟨_, r, hitem, hrest⟩ := bind_ok hrun
    obtain ⟨hmem, hsub⟩ := List.cons_subset.1 hxs
    have hr := h.resolve (hkeeps item hmem) fun d hd i hi d' hd' => by
      rw [Ast.types, List.filterMap_cons, hd] at hpos
      refine fun heq => (List.nodup_cons.1 hpos).1 (heq ▸ List.mem_map_of_mem ?_)
      exact List.mem_filterMap.2 ⟨i, hi, hd'⟩
    rw [hitem] at hr
    refine ih hr hsub ?_ hrest
    exact hpos.sublist (((List.sublist_cons_self item rest).filterMap _).map _)

/-- The third pass: the constant of a member is no field. -/
theorem Assembling.lowerPart (h : Assembling f items [] ds p) (hitem : item ∈ items) {part : Part}
    (hpart : part ∈ lowerParts ds item) : Assembling f items [] ds (part.run f p).2 := by
  obtain ⟨hstands, hother⟩ := lowerParts_stands hpart
  refine ⟨h.catalogue.keep (h.catalogue.kept_run part hstands hother),
    h.inStep.run h.catalogue hstands, ?_⟩
  cases hr : part.outcome? f p with
  | some r =>
    refine (settled_outcome h.catalogue hstands hr).each h.units (fun _ _ he => he.grown.layouts)
      fun q hq => ?_
    obtain ⟨c, a, ⟨-, -, ha⟩, rfl⟩ := hq
    exact each_modifyUnit h.catalogue.indexed (fun u => u.bare_addCfg c)
      (fun u hu _ t ht => (h.fields_grown ha hu ht).addCfg c) fun u hu _ t ht => h.fields_grown ha hu ht
  | none =>
    cases item with
    | function fn =>
      cases List.mem_singleton.1 hpart
      cases hr
    | impl generics self members =>
      rw [lowerParts] at hpart
      split at hpart
      · obtain ⟨m, hm, rfl⟩ := List.mem_map.1 hpart
        refine (settled_member h.catalogue generics hstands m fun fn heq => ?_).each h.units
          (fun _ _ ha => ha.layouts) fun q hq => ?_
        · subst heq
          cases hr
        · obtain ⟨-, hedit⟩ := hq
          cases hedit with
          | none => exact h.units
          | @member _ _ owner name pos type s t u a hname hdeclared ha =>
            refine each_modifyUnit h.catalogue.indexed (fun u => u.bare_addGlobal _)
              (fun v hv hid t' ht' => ?_) fun v hv _ t' ht' => h.fields_grown ha hv ht'
            obtain rfl := h.catalogue.indexed.eq_of_id hv (mem_of_declared hdeclared) hid
            obtain ⟨hv', howner⟩ := h.catalogue.unit_of_declared hdeclared
            have hshown := h.fields_grown ha hv ht'
            have hspared := hshown.spared howner
            refine shown_of_bare (v.bare_addGlobal _) ?_ hspared fun _ hi => (List.not_mem_nil hi).elim
            refine hshown.starts.addGlobal (hspared name (List.mem_flatMap.2 ⟨_, hitem, ?_⟩))
            rw [Item.constsFor, if_pos (hv' ▸ hname)]
            exact List.mem_filterMap.2 ⟨_, hm, rfl⟩
      · cases List.mem_singleton.1 hpart
        exact h.refuse _ _ _
    | _ => cases hpart

theorem Assembling.lowers (h : Assembling f items [] ds p) :
    Assembling f items [] ds (each (lowerItem f) items p).2 := by
  refine each_invariant (I := Assembling f items [] ds) (fun item hitem q hq => ?_) h
  rw [lowerItem_parts hq.catalogue item]
  exact each_invariant (I := Assembling f items [] ds) (fun part hpart r hr => hr.lowerPart hitem hpart) hq

theorem assembling_opened {start : Program} (hstart : Assembled start)
    (hunits : Each SourceUnit.StartsWith start) (config : Config) (file : String) (items : List Item) :
    let f : FileSetting := ⟨config, file, start.nextUnit⟩
    Assembling f items items [] (opened f start) := by
  intro f
  refine ⟨catalogue_start hstart.indexed rfl, hstart.inStep.opened f, fun u hu t ht => ?_⟩
  rcases List.mem_append.1 hu with hu | hu
  · have howner : u.owner ≠ some f.module := by
      intro howner
      have hwell := hstart.indexed.wellFormed hstart.inStep
      have htype : u.IsType := fun hkind => by
        rw [(hwell.modules u hu hkind).2] at ht
        cases ht
      obtain ⟨m, hm, t, hdeclares⟩ := hwell.types u ⟨hu, htype⟩
      obtain ⟨i, hi⟩ := List.mem_iff_getElem?.1 hm
      have hid : f.module = ⟨i⟩ := (Option.some.inj (howner.symm.trans hdeclares.owner)).trans
        (hwell.ids i m hi)
      exact absurd (List.getElem?_eq_some_iff.1 hi).1 (Nat.not_lt_of_le (Nat.le_of_eq
        (congrArg UnitId.index hid)))
    exact ⟨hunits u hu t ht, fun h => absurd h howner, fun h => absurd h howner⟩
  · cases List.mem_singleton.1 hu
    cases ht

end Assembly

namespace Program

open Assembly

variable {p q : Program}

/-- **A file keeps the fields of all structs in place.** -/
theorem each_assemble (hp : Assembled p) (hunits : Each SourceUnit.StartsWith p) {config : Config}
    {file : String} {items : List Item} (hitems : Ast.keepsFields items = true)
    (hrun : assemble config file items p = (.ok (), q)) : Each SourceUnit.StartsWith q := by
  obtain ⟨hpos, hkeeps⟩ := of_decide_eq_true hitems
  let f : FileSetting := ⟨config, file, p.nextUnit⟩
  have hrun : (do
      each (declareItem f) items
      each (resolveItem f) items
      each (lowerItem f) items) (opened f p) = (.ok (), q) := hrun
  obtain ⟨_, r, hdeclare, hrun⟩ := bind_ok hrun
  obtain ⟨_, s, hresolve, hlower⟩ := bind_ok hrun
  have hr := (assembling_opened hp hunits config file items).declares hdeclare
  have hs := (hr.resolves hkeeps (List.Subset.refl items) hpos hresolve).lowers
  rw [hlower] at hs
  exact hs.units.imp fun u fields h => h.starts

theorem Each.structsMatch (h : Each SourceUnit.StartsWith p) : p.StructsMatch :=
  fun u hu _ t ht => (h u hu t ht).shows

variable {parse : String → Option (List Item)}

theorem each_addSource (hp : Assembled p) (hunits : Each SourceUnit.StartsWith p) {config : Config}
    {file source : String} (hsource : (parse source).all Ast.keepsFields = true)
    (hq : addSource parse config p file source = .ok q) : Each SourceUnit.StartsWith q := by
  obtain ⟨items, hread, hrun⟩ := addSource_ok hq
  rw [hread] at hsource
  exact each_assemble hp hunits hsource hrun

theorem each_addFiles {config : Config} {read : String → Option String} {files : List String}
    (hp : Assembled p) (hunits : Each SourceUnit.StartsWith p)
    (hfiles : ∀ file ∈ files, ∀ source, read file = some source →
      (parse source).all Ast.keepsFields = true)
    (hq : addFiles parse config read p files = .ok q) : Each SourceUnit.StartsWith q := by
  refine (addFiles_invariant (I := fun p => Assembled p ∧ Each SourceUnit.StartsWith p) hq
    (fun file hfile source hread p q h hadded => ?_) ⟨hp, hunits⟩).2
  exact ⟨h.1.addSource hadded, each_addSource h.1 h.2 (hfiles file hfile source hread) hadded⟩

/-- **The globals of a struct start with the fields of its layout.**  In every program that is
built from files in which no constant takes the place of a field, each unit of a struct has
the fields of its type as its first globals, in the order of declaration, and by the name of
a field a global of its type is found. -/
theorem build_structsMatch (config : Config) (parse : String → Option (List Item)) :
    (∀ file source p, (parse source).all Ast.keepsFields = true →
      build config file source parse = .ok p → p.StructsMatch) ∧
    ∀ read files p, (∀ file ∈ files, ∀ source, read file = some source →
        (parse source).all Ast.keepsFields = true) →
      buildFiles config read files parse = .ok p → p.StructsMatch := by
  have hempty : Each SourceUnit.StartsWith empty := fun u hu => (List.not_mem_nil hu).elim
  exact ⟨fun _ _ _ hsource hp => (each_addSource .empty hempty hsource hp).structsMatch,
    fun _ _ _ hfiles hp => (each_addFiles .empty hempty hfiles hp).structsMatch⟩

/-- A file with a struct that is used before it is declared, and constants beside fields. -/
def fieldsAndConstants : String :=
  "impl P { const y: u8 = 1; const y: bool = true; } struct Q(P, &P); struct P { x: i32, q: (Q, R) } struct R;"

theorem build_structsMatch_fieldsAndConstants :
    (∃ p, build {} "a.rs" fieldsAndConstants = .ok p ∧
      (p.units.map fun u => u.globals.map Global.name) = [[], ["0", "1"], ["x", "q", "y"], []] ∧
      p.StructsMatch) ∧
    ∃ p, buildFiles {} (fun _ => some fieldsAndConstants) ["a.rs", "b.rs"] = .ok p ∧
      p.StructsMatch := by
  obtain ⟨hbuild, hfiles⟩ := build_structsMatch {} Grammar.readFile?
  have hkeeps : (Grammar.readFile? fieldsAndConstants).all Ast.keepsFields = true := by
    decide +kernel
  obtain ⟨p, hp, hnames⟩ := exists_of_any (x := build {} "a.rs" fieldsAndConstants)
    (P := fun p => (p.units.map fun u => u.globals.map Global.name) ==
      [[], ["0", "1"], ["x", "q", "y"], []]) (by decide +kernel)
  obtain ⟨q, hq, -⟩ := exists_of_any
    (x := buildFiles {} (fun _ => some fieldsAndConstants) ["a.rs", "b.rs"])
    (P := fun _ => true) (by decide +kernel)
  refine ⟨⟨p, hp, beq_iff_eq.1 hnames, hbuild _ _ p hkeeps hp⟩, q, hq, hfiles _ _ q ?_ hq⟩
  intro file _ source hsource
  cases hsource
  exact hkeeps

/-- A constant that takes the place of a field. -/
theorem build_structsMatch_fails :
    ∃ p, build {} "a.rs" "struct S { x: i32 } impl S { const x: bool = true; }" = .ok p ∧
      p.diagnostics = [] ∧ ¬p.StructsMatch := by
  obtain ⟨p, hp, h⟩ := exists_of_any
    (x := build {} "a.rs" "struct S { x: i32 } impl S { const x: bool = true; }")
    (P := fun p => decide (p.diagnostics = [] ∧ ¬p.StructsMatch)) (by decide +kernel)
  exact ⟨p, hp, of_decide_eq_true h⟩

end Program

end RustFlow
