/-
# A file alone and among others

A file is assembled twice: alone, and after the files of a program.  The two programs are
kept in step (`Twin`): the second has got the units of the first, with their ids moved
past the units it had, and both arenas hold the structs and enums of the file with alike
layouts (`Grafted`).  What the second program had before is left as it was.

Every part of the file keeps them in step and ends in both in the same way
(`twins_run`): what it looks up are units and types of the file, and these correspond.
-/

import RustFlow.Proofs.Parts

namespace RustFlow

open Arena Program Attempt Ast

/-- The owner of a struct or enum. -/
def TypeForm.owner? : TypeForm → Option UnitId
  | struct _ owner => some owner
  | enum _ owner => some owner
  | _ => none

theorem TypeForm.owner?_eq_none {f : TypeForm} (hf : f.isNamed = false) : f.owner? = none := by
  cases f with
  | struct => cases hf
  | enum => cases hf
  | _ => rfl

theorem TypeForm.isNamed_of_owner? {f : TypeForm} {o : UnitId} (h : f.owner? = some o) :
    f.isNamed = true := by
  cases hn : f.isNamed with
  | true => rfl
  | false =>
    rw [owner?_eq_none hn] at h
    cases h

theorem TypeForm.owner?_of_isNamed {f : TypeForm} (hn : f.isNamed = true) :
    ∃ o, f.owner? = some o := by
  cases f with
  | struct name o => exact ⟨o, rfl⟩
  | enum name o => exact ⟨o, rfl⟩
  | _ => cases hn

theorem TypeForm.owner?_shift (k : Nat) (f : TypeForm) :
    (f.shift k).owner? = f.owner?.map (UnitId.shift k) := by cases f <;> rfl

theorem TypeForm.owner?_form (d : TypeDecl) (module : UnitId) :
    (d.form module).owner? = some module := by
  obtain ⟨kind, name, pos⟩ := d
  cases kind <;> rfl

theorem TypeForm.shift_form (k : Nat) (d : TypeDecl) (module : UnitId) :
    (d.form module).shift k = d.form (module.shift k) := by
  obtain ⟨kind, name, pos⟩ := d
  cases kind <;> rfl

namespace Arena

variable {k : Nat} {module : UnitId} {old a a' b b' : Arena} {s t : TypeId} {f : TypeForm}
  {l l' : Layout} {d : TypeDecl} {name : String}

theorem layout?_setLayout (a : Arena) (s : TypeId) (l : Layout) (t : TypeId) :
    (a.setLayout s l).layout? t = if t = s then some l else a.layout? t := by
  rw [layout?, setLayout, List.lookup_cons]
  by_cases h : t = s
  · rw [if_pos h, h, beq_self_eq_true]
  · rw [if_neg h, beq_eq_false_iff_ne.2 h]
    rfl

theorem getElem?_add {g : TypeForm} {i : Nat} (h : (a.add f).forms[i]? = some g) :
    a.forms[i]? = some g ∨ i = a.size ∧ g = f := by
  rcases Nat.lt_or_ge i a.forms.length with hi | hi
  · rw [add, List.getElem?_append_left hi] at h
    exact .inl h
  · rw [add, List.getElem?_append_right hi, List.getElem?_singleton] at h
    split at h
    · rename_i hsize
      cases h
      exact .inr ⟨Nat.le_antisymm (Nat.le_of_sub_eq_zero hsize) hi, rfl⟩
    · cases h

theorem layout?_eq_none_of_size_le (ha : a.Sound) (ht : a.size ≤ t.index) : a.layout? t = none := by
  refine layout?_eq_none ha ?_
  rw [form, List.getElem?_eq_none ht]
  rfl

/-! ### Arenas -/

/-- An arena `b` that holds the types of a file besides those it had before, in
correspondence with the arena `a` of the file alone. -/
structure Grafted (k : Nat) (module : UnitId) (old a b : Arena) : Prop where
  linked : (Ground.mk k a b).Linked
  structs : ∀ name, Option.Rel (Same (a.shift k) b) (a.findStruct name module)
    (b.findStruct name (module.shift k))
  enums : ∀ name, Option.Rel (Same (a.shift k) b) (a.findEnum name module)
    (b.findEnum name (module.shift k))
  /-- Alone, all structs and enums are those of the file. -/
  own : ∀ f ∈ a.forms, ∀ o, f.owner? = some o → o = module
  forms : old.forms <+: b.forms
  /-- Among others, the new ones are. -/
  added : ∀ f ∈ b.forms, f ∈ old.forms ∨ ∀ o, f.owner? = some o → o = module.shift k
  layouts : ∀ t, old.Live t → b.layout? t = old.layout? t
  /-- The file comes after the owners of the others. -/
  older : ∀ f ∈ old.forms, ∀ o, f.owner? = some o → o.index < k

theorem Grafted.findNamed (h : Grafted k module old a b) (name : String) :
    Option.Rel (Same (a.shift k) b) (a.findNamed name module) (b.findNamed name (module.shift k)) :=
  optionRel_or (h.structs name) (h.enums name)

theorem Grafted.same_of_findNamed (h : Grafted k module old a b)
    (hs : a.findNamed name module = some s) (ht : b.findNamed name (module.shift k) = some t) :
    Same (a.shift k) b s t := by
  have hrel := h.findNamed name
  rw [hs, ht] at hrel
  cases hrel with
  | some hst => exact hst

theorem Grafted.aligned (h : Grafted k module old a b) : Aligned ⟨k, a, b⟩ a b :=
  ⟨h.linked, .refl h.linked.left, .refl h.linked.right, trivial⟩

/-- What is interned on both sides while types are resolved and bodies lowered. -/
theorem Grafted.grown (h : Grafted k module old a b) (ha : Grown a a') (hb : Grown b b') :
    Grafted k module old a' b' := by
  have hab : Aligned ⟨k, a, b⟩ a' b' := ⟨h.linked, ha, hb, trivial⟩
  refine ⟨⟨ha.sound, hb.sound, fun s t => hab.layout?⟩, fun name => ?_, fun name => ?_,
    fun f hf o ho => ?_, h.forms.trans hb.forms, fun f hf => ?_, fun t ht => ?_, h.older⟩
  · rw [findStruct, findStruct, ha.widened.lookup_named rfl, hb.widened.lookup_named rfl]
    exact optionRel_imp (h.structs name) fun _ _ => hab.same_of_base
  · rw [findEnum, findEnum, ha.widened.lookup_named rfl, hb.widened.lookup_named rfl]
    exact optionRel_imp (h.enums name) fun _ _ => hab.same_of_base
  · exact h.own f (ha.named f hf (TypeForm.isNamed_of_owner? ho)) o ho
  · cases hn : f.isNamed with
    | false =>
      refine .inr fun o ho => ?_
      rw [TypeForm.owner?_eq_none hn] at ho
      cases ho
    | true => exact h.added f (hb.named f hf hn)
  · rw [layout?, hb.layouts]
    exact h.layouts t ht

/-- A struct or enum of the file was not there before. -/
theorem Grafted.not_live (h : Grafted k module old a b)
    (ht : b.findNamed name (module.shift k) = some t) : ¬ old.Live t := by
  intro hlive
  obtain ⟨f, hf, howner⟩ : ∃ f : TypeForm, b.forms[t.index]? = some f ∧
      f.owner? = some (module.shift k) := by
    rcases Option.or_eq_some_iff.1 ht with hs | ⟨-, he⟩
    · exact ⟨_, lookup_eq_some hs, rfl⟩
    · exact ⟨_, lookup_eq_some he, rfl⟩
  have hold := hlive.forms
  cases (getElem?_mono h.forms hold).symm.trans hf
  have hlt := h.older _ (List.mem_of_getElem? hold) _ howner
  exact Nat.not_lt.2 (Nat.le_add_left k module.index) hlt

theorem Grafted.setLayout (h : Grafted k module old a b) (hs : a.findNamed name module = some s)
    (ht : b.findNamed name (module.shift k) = some t) (hl : l.Alike (Same (a.shift k) b) l') :
    Grafted k module old (a.setLayout s l) (b.setLayout t l') := by
  have hst := h.same_of_findNamed hs ht
  have hto (x y : TypeId) (hxy : Same (a.shift k) b x y) :
      Same ((a.setLayout s l).shift k) (b.setLayout t l') x y :=
    hxy.mono (List.prefix_refl _) (List.prefix_refl _)
  obtain ⟨f, hf, hfn⟩ := named_of_findNamed hs
  obtain ⟨g, hg, hgn⟩ := named_of_findNamed ht
  have hlive : ∀ x ∈ l.types, a.Live x := fun x hx => by
    obtain ⟨y, -, hxy⟩ := forall₂_left hl.types hx
    exact live_shift.1 hxy.live_left
  have hlive' : ∀ y ∈ l'.types, b.Live y := fun y hy => by
    obtain ⟨x, -, hxy⟩ := forall₂_left hl.types.flip hy
    exact hxy.live_right
  refine ⟨⟨h.linked.left.setLayout hf hfn hlive, h.linked.right.setLayout hg hgn hlive',
      fun x y hxy => ?_⟩, fun name => optionRel_imp (h.structs name) hto,
    fun name => optionRel_imp (h.enums name) hto, h.own, h.forms, h.added, fun x hx => ?_, h.older⟩
  · have hxy : Same (a.shift k) b x y := Same.mono hxy (List.prefix_refl _) (List.prefix_refl _)
    have heq : x = s ↔ y = t := hxy.eq_iff (h.linked.left.shift k) h.linked.right hst
    rw [layout?_setLayout, layout?_setLayout]
    by_cases hx : x = s
    · rw [if_pos hx, if_pos (heq.1 hx)]
      exact .some (hl.mono hto)
    · rw [if_neg hx, if_neg fun hy => hx (heq.2 hy)]
      exact optionRel_imp (h.linked.layouts x y hxy) fun _ _ => .mono hto
  · have hne : x ≠ t := by
      rintro rfl
      exact h.not_live ht hx
    rw [layout?_setLayout, if_neg hne]
    exact h.layouts x hx

theorem Grafted.layout?_add (h : Grafted k module old a b) (hnew : d.form module ∉ a.forms)
    (hnew' : d.form (module.shift k) ∉ b.forms)
    (hst : Same ((a.add (d.form module)).shift k) (b.add (d.form (module.shift k))) s t) :
    Option.Rel (Layout.Alike (Same (a.shift k) b)) ((a.add (d.form module)).layout? s)
      ((b.add (d.form (module.shift k))).layout? t) := by
  have ha := h.linked.left.add hnew (parts_form d module)
  have hb := h.linked.right.add hnew' (parts_form d (module.shift k))
  refine layout?_rel ha hb hst fun f hf hg hn => ?_
  rcases getElem?_add hf with hf | ⟨hs, rfl⟩
  · rcases getElem?_add hg with hg | ⟨-, heq⟩
    · exact h.linked.layouts s t (same_of_isNamed hf hg hn)
    · rw [← TypeForm.shift_form] at heq
      obtain rfl := TypeForm.shift_injective k heq
      exact absurd (List.mem_of_getElem? hf) hnew
  · rcases getElem?_add hg with hg | ⟨ht, -⟩
    · rw [TypeForm.shift_form] at hg
      exact absurd (List.mem_of_getElem? hg) hnew'
    · have hleft : a.layout? s = none :=
        layout?_eq_none_of_size_le h.linked.left (Nat.le_of_eq hs.symm)
      have hright : b.layout? t = none :=
        layout?_eq_none_of_size_le h.linked.right (Nat.le_of_eq ht.symm)
      show Option.Rel _ (a.layout? s) (b.layout? t)
      rw [hleft, hright]
      exact .none

theorem same_add (k : Nat) (module : UnitId) (a b : Arena) (d : TypeDecl) :
    Same ((a.add (d.form module)).shift k) (b.add (d.form (module.shift k))) ⟨a.size⟩ ⟨b.size⟩ := by
  have hleft : (a.add (d.form module)).forms[a.size]? = some (d.form module) :=
    List.getElem?_concat_length
  refine same_of_forms ?_ List.getElem?_concat_length (.plain (parts_form ..))
  rw [getElem?_shift, hleft, Option.map_some, TypeForm.shift_form]

theorem Grafted.lookup_add {R : TypeId → TypeId → Prop}
    (hold : Option.Rel R (a.lookup f) (b.lookup (f.shift k))) (hlast : R ⟨a.size⟩ ⟨b.size⟩) :
    Option.Rel R ((a.add (d.form module)).lookup f)
      ((b.add (d.form (module.shift k))).lookup (f.shift k)) := by
  rw [Arena.lookup_add, Arena.lookup_add]
  refine optionRel_or hold ?_
  by_cases heq : d.form module = f
  · rw [if_pos heq, if_pos (heq ▸ (TypeForm.shift_form k d module).symm)]
    exact .some hlast
  · rw [← TypeForm.shift_form, if_neg heq, if_neg fun h => heq (TypeForm.shift_injective k h)]
    exact .none

theorem Grafted.add (h : Grafted k module old a b) (hnew : a.findNamed d.name module = none) :
    Grafted k module old (a.add (d.form module)) (b.add (d.form (module.shift k))) := by
  have hnew' : b.findNamed d.name (module.shift k) = none := by
    rcases optionRel_cases (h.findNamed d.name) with ⟨-, hb⟩ | ⟨x, y, ha, -⟩
    · exact hb
    · rw [hnew] at ha
      cases ha
  replace hnew := not_mem_of_findNamed hnew
  replace hnew' := not_mem_of_findNamed hnew'
  have hto (x y : TypeId) (hxy : Same (a.shift k) b x y) :
      Same ((a.add (d.form module)).shift k) (b.add (d.form (module.shift k))) x y :=
    hxy.mono (prefix_shift k (List.prefix_append ..)) (List.prefix_append ..)
  have hlast := same_add k module a b d
  have howner {m : UnitId} {forms : List TypeForm} {f : TypeForm} (hf : f ∈ forms ++ [d.form m]) :
      f ∈ forms ∨ ∀ o, f.owner? = some o → o = m := by
    refine (List.mem_append.1 hf).imp_right fun hf o ho => ?_
    rw [List.mem_singleton.1 hf, TypeForm.owner?_form] at ho
    exact (Option.some.inj ho).symm
  refine ⟨⟨h.linked.left.add hnew (parts_form ..), h.linked.right.add hnew' (parts_form ..),
      fun x y hxy => optionRel_imp (h.layout?_add hnew hnew' hxy) fun _ _ => .mono hto⟩,
    fun name => lookup_add (f := .struct name module) (optionRel_imp (h.structs name) hto) hlast,
    fun name => lookup_add (f := .enum name module) (optionRel_imp (h.enums name) hto) hlast,
    fun f hf => ?_, h.forms.trans (List.prefix_append ..), fun f hf => ?_, h.layouts, h.older⟩
  · exact (howner hf).elim (h.own f) id
  · exact (howner hf).elim (h.added f) .inr

theorem isNamed_of_mem_empty (hf : f ∈ empty.forms) : f.isNamed = false := by
  have hall : ∀ f ∈ TypeForm.primitives, f.isNamed = false := by decide
  exact hall f hf

theorem grafted_empty (hold : old.Sound)
    (hlt : ∀ f ∈ old.forms, ∀ o, f.owner? = some o → o.index < k) (module : UnitId) :
    Grafted k module old empty old := by
  have hleft {f : TypeForm} (hf : f.isNamed = true) : empty.lookup f = none :=
    lookup_eq_none.2 fun hmem => by
      rw [isNamed_of_mem_empty hmem] at hf
      cases hf
  have hright {f : TypeForm} (hf : f.owner? = some (module.shift k)) : old.lookup f = none :=
    lookup_eq_none.2 fun hmem => Nat.not_lt.2 (Nat.le_add_left k module.index) (hlt f hmem _ hf)
  refine ⟨⟨sound_empty, hold, fun s t hst => layout?_rel sound_empty hold hst fun f hf _ hn => ?_⟩,
    fun name => ?_, fun name => ?_, fun f hf o ho => ?_, List.prefix_refl _, fun f hf => .inl hf,
    fun _ _ => rfl, hlt⟩
  · rw [isNamed_of_mem_empty (List.mem_of_getElem? hf)] at hn
    cases hn
  · rw [findStruct, findStruct, hleft rfl, hright rfl]
    exact .none
  · rw [findEnum, findEnum, hleft rfl, hright rfl]
    exact .none
  · rw [TypeForm.owner?_eq_none (isNamed_of_mem_empty hf)] at ho
    cases ho

end Arena

/-! ### Units -/

/-- The same global with related types. -/
structure Global.Alike (R : TypeId → TypeId → Prop) (g h : Global) : Prop where
  name : g.name = h.name
  type : R g.type h.type
  location : g.location = h.location

/-- The same unit with related types. -/
structure SourceUnit.Alike (R : TypeId → TypeId → Prop) (u v : SourceUnit) : Prop where
  id : u.id = v.id
  name : u.name = v.name
  kind : u.kind = v.kind
  location : u.location = v.location
  owner : u.owner = v.owner
  type : Option.Rel R u.type v.type
  globals : List.Forall₂ (Global.Alike R) u.globals v.globals
  cfgs : List.Forall₂ (Cfg.Alike R) u.cfgs v.cfgs

namespace SourceUnit

variable {R S : TypeId → TypeId → Prop} {k : Nat} {u v : SourceUnit} {g h : Global} {c c' : Cfg}

/-- The unit as it stands with more units before it. -/
def shift (k : Nat) (u : SourceUnit) : SourceUnit :=
  { u with id := u.id.shift k, owner := u.owner.map (UnitId.shift k), cfgs := u.cfgs.map (Cfg.shift k) }

theorem Alike.mono (hRS : ∀ s t, R s t → S s t) (huv : u.Alike R v) : u.Alike S v :=
  ⟨huv.id, huv.name, huv.kind, huv.location, huv.owner, optionRel_imp huv.type hRS,
    huv.globals.imp fun _ _ hg => ⟨hg.name, hRS _ _ hg.type, hg.location⟩,
    huv.cfgs.imp fun _ _ hc => hc.mono hRS⟩

theorem Alike.addGlobal (huv : u.Alike R v) (hg : g.Alike R h) :
    (u.addGlobal g).Alike R (v.addGlobal h) := by
  have hfound : Option.Rel (Global.Alike R) (u.global? g.name) (v.global? h.name) :=
    forall₂_find? huv.globals fun x y hxy => by rw [hxy.name, hg.name]
  have hsome : (u.global? g.name).isSome = (v.global? h.name).isSome := by
    rcases optionRel_cases hfound with ⟨hu, hv⟩ | ⟨x, y, hu, hv, -⟩ <;> rw [hu, hv]
    rfl
  unfold SourceUnit.addGlobal
  rw [hsome]
  split
  · refine ⟨huv.id, huv.name, huv.kind, huv.location, huv.owner, huv.type, ?_, huv.cfgs⟩
    rw [List.forall₂_map_left_iff, List.forall₂_map_right_iff]
    refine huv.globals.imp fun x y hxy => ?_
    rw [hxy.name, hg.name]
    split
    · exact hg
    · exact hxy
  · exact ⟨huv.id, huv.name, huv.kind, huv.location, huv.owner, huv.type,
      List.rel_append huv.globals (.cons hg .nil), huv.cfgs⟩

theorem shift_addGlobal (k : Nat) (u : SourceUnit) (g : Global) :
    (u.addGlobal g).shift k = (u.shift k).addGlobal g := by
  unfold SourceUnit.addGlobal
  rw [show (u.shift k).global? g.name = u.global? g.name from rfl]
  split <;> rfl

theorem Alike.addGlobals {gs hs : List Global} (huv : (u.shift k).Alike R v)
    (hgs : List.Forall₂ (Global.Alike R) gs hs) :
    ((gs.foldl SourceUnit.addGlobal u).shift k).Alike R (hs.foldl SourceUnit.addGlobal v) := by
  induction hgs generalizing u v with
  | nil => exact huv
  | cons hg _ ih =>
    refine ih ?_
    rw [shift_addGlobal]
    exact huv.addGlobal hg

theorem Alike.addCfg (huv : (u.shift k).Alike R v) (hc : (c.shift k).Alike R c') :
    ((u.addCfg c).shift k).Alike R (v.addCfg c') := by
  refine ⟨huv.id, huv.name, huv.kind, huv.location, huv.owner, huv.type, huv.globals, ?_⟩
  show List.Forall₂ (Cfg.Alike R) ((u.cfgs ++ [c]).map (Cfg.shift k)) (v.cfgs ++ [c'])
  rw [List.map_append]
  exact List.rel_append huv.cfgs (.cons hc .nil)

end SourceUnit

/-! ### Programs -/

/-- The setting of a file whose module has more units before it. -/
def FileSetting.shift (k : Nat) (f : FileSetting) : FileSetting := { f with module := f.module.shift k }

theorem modify_append_length {α : Type} (g : α → α) (xs ys : List α) (i : Nat) :
    (xs ++ ys).modify (i + xs.length) g = xs ++ ys.modify i g := by
  induction xs with
  | nil => rfl
  | cons x xs ih =>
    rw [List.length_cons, ← Nat.add_assoc]
    exact congrArg (x :: ·) ih

namespace Program

variable {k : Nat} {module : UnitId} {start p q : Program} {a b : Arena} {t : TypeId}
  {f : FileSetting} {d : TypeDecl}

/-- A file assembled alone, in `p`, and after the files of another program, in `q`, up to the
same part. -/
structure Twin (k : Nat) (module : UnitId) (start p q : Program) : Prop where
  indexed : start.Indexed
  size : start.units.length = k
  arena : Grafted k module start.arena p.arena q.arena
  ids : ∀ u ∈ p.units, u.id.index < p.units.length
  module_lt : module.index < p.units.length
  units : ∃ us, q.units = start.units ++ us ∧
    List.Forall₂ (fun u v => (u.shift k).Alike (Same (p.arena.shift k) q.arena) v) p.units us
  diagnostics : q.diagnostics = start.diagnostics ++ p.diagnostics

theorem ids_modifyUnit (h : ∀ u ∈ p.units, u.id.index < p.units.length)
    {g : SourceUnit → SourceUnit} (hid : ∀ u, (g u).id = u.id) (id : UnitId) :
    ∀ u ∈ (p.modifyUnit id g).units, u.id.index < (p.modifyUnit id g).units.length := by
  intro u hu
  obtain ⟨i, hi⟩ := List.mem_iff_getElem?.1 hu
  rw [getElem?_modifyUnit, Option.map_eq_some_iff] at hi
  obtain ⟨v, hv, rfl⟩ := hi
  have hsame : (if id.index = i then g v else v).id = v.id := by
    split
    · exact hid v
    · rfl
  rw [hsame, length_modifyUnit]
  exact h v (List.mem_of_getElem? hv)

theorem ids_addUnit (h : ∀ u ∈ p.units, u.id.index < p.units.length) {u : SourceUnit}
    (hid : u.id = p.nextUnit) :
    ∀ v ∈ (p.addUnit u).units, v.id.index < (p.addUnit u).units.length := by
  intro v hv
  rw [length_addUnit]
  rcases List.mem_append.1 hv with hv | hv
  · exact Nat.lt_succ_of_lt (h v hv)
  · cases List.mem_singleton.1 hv
    exact hid ▸ Nat.lt_succ_self _

theorem Twin.withArena (h : Twin k module start p q) (hab : Grafted k module start.arena a b)
    (ha : p.arena.forms <+: a.forms) (hb : q.arena.forms <+: b.forms) :
    Twin k module start { p with arena := a } { q with arena := b } := by
  obtain ⟨us, hunits, hus⟩ := h.units
  refine ⟨h.indexed, h.size, hab, h.ids, h.module_lt, ⟨us, hunits, hus.imp fun u v huv => ?_⟩,
    h.diagnostics⟩
  exact huv.mono fun _ _ hst => hst.mono (prefix_shift k ha) hb

theorem Twin.addDiagnostic (h : Twin k module start p q) (x : Diagnostic) :
    Twin k module start (p.addDiagnostic x) (q.addDiagnostic x) := by
  refine ⟨h.indexed, h.size, h.arena, h.ids, h.module_lt, h.units, ?_⟩
  rw [Program.addDiagnostic, Program.addDiagnostic, h.diagnostics, List.append_assoc]

theorem Twin.modifyUnit (h : Twin k module start p q) {g g' : SourceUnit → SourceUnit}
    (hid : ∀ u, (g u).id = u.id)
    (hg : ∀ u v, (u.shift k).Alike (Same (p.arena.shift k) q.arena) v →
      ((g u).shift k).Alike (Same (p.arena.shift k) q.arena) (g' v)) (id : UnitId) :
    Twin k module start (p.modifyUnit id g) (q.modifyUnit (id.shift k) g') := by
  obtain ⟨us, hunits, hus⟩ := h.units
  refine ⟨h.indexed, h.size, h.arena, ids_modifyUnit h.ids hid id, length_modifyUnit p id ▸ h.module_lt,
    ⟨us.modify id.index g', ?_, forall₂_modifyBoth hus hg id.index⟩, h.diagnostics⟩
  rw [Program.modifyUnit, hunits, ← h.size]
  exact modify_append_length ..

theorem Twin.unit? (h : Twin k module start p q) (id : UnitId) :
    Option.Rel (fun u v => (u.shift k).Alike (Same (p.arena.shift k) q.arena) v) (p.unit? id)
      (q.unit? (id.shift k)) := by
  obtain ⟨us, hunits, hus⟩ := h.units
  have hat : q.unit? (id.shift k) = us[id.index]? := by
    rw [Program.unit?, hunits, List.getElem?_append_right (by rw [h.size]; exact Nat.le_add_left ..),
      h.size]
    exact congrArg (us[·]?) (Nat.add_sub_cancel ..)
  rw [hat]
  exact forall₂_getElem? hus id.index

theorem Twin.unitName_eq (h : Twin k module start p q) {id : UnitId}
    (hid : id.index < p.units.length) : q.unitName (id.shift k) = p.unitName id := by
  rw [unitName, unitName]
  rcases optionRel_cases (h.unit? id) with ⟨hp, -⟩ | ⟨u, v, hp, hq, huv⟩
  · exact absurd (List.getElem?_eq_none_iff.1 hp) (Nat.not_le.2 hid)
  · rw [hp, hq]
    exact huv.name.symm

theorem Twin.register (h : Twin k f.module start p q)
    (hnew : p.arena.findNamed d.name f.module = none) :
    Twin k f.module start (p.register f d) (q.register (f.shift k) d) := by
  obtain ⟨us, hunits, hus⟩ := h.units
  have hlength : p.nextUnit.shift k = q.nextUnit := by
    rw [nextUnit, nextUnit, hunits, List.length_append, h.size, ← hus.length_eq, Nat.add_comm]
    rfl
  have harena := h.arena.add hnew
  have hto (s t : TypeId) (hst : Same (p.arena.shift k) q.arena s t) :
      Same ((p.register f d).arena.shift k) (q.register (f.shift k) d).arena s t :=
    hst.mono (prefix_shift k (List.prefix_append ..)) (List.prefix_append ..)
  refine ⟨h.indexed, h.size, harena, ids_addUnit (u := p.unitFor f d) h.ids rfl, ?_,
    ⟨us ++ [q.unitFor (f.shift k) d], ?_, List.rel_append (hus.imp fun _ _ => .mono hto) ?_⟩,
    h.diagnostics⟩
  · exact length_addUnit _ _ ▸ Nat.lt_succ_of_lt h.module_lt
  · rw [Program.register, Program.addUnit, hunits, List.append_assoc]
  · refine .cons ⟨hlength, rfl, rfl, rfl, rfl, .some ?_, .nil, .nil⟩ .nil
    exact same_add ..

theorem Twin.unitOfType? (h : Twin k module start p q) {name : String} {s : TypeId}
    (hs : p.arena.findNamed name module = some s)
    (ht : q.arena.findNamed name (module.shift k) = some t) :
    Option.Rel (fun u v => (u.shift k).Alike (Same (p.arena.shift k) q.arena) v) (p.unitOfType? s)
      (q.unitOfType? t) := by
  have hst := h.arena.same_of_findNamed hs ht
  obtain ⟨us, hunits, hus⟩ := h.units
  have hold : start.units.find? (fun u => u.type == some t) = none :=
    List.find?_eq_none.2 fun u hu htype =>
      h.arena.not_live ht (h.indexed.types u hu t (beq_iff_eq.1 htype))
  unfold Program.unitOfType?
  rw [hunits, List.find?_append, hold, Option.none_or]
  refine forall₂_find? hus fun u v huv => ?_
  have htype : Option.Rel (Same (p.arena.shift k) q.arena) u.type v.type := huv.type
  rcases optionRel_cases htype with ⟨hu, hv⟩ | ⟨x, y, hu, hv, hxy⟩
  · rw [hu, hv]
    rfl
  · rw [hu, hv, Bool.eq_iff_iff, beq_iff_eq, beq_iff_eq, Option.some_inj, Option.some_inj]
    exact hxy.eq_iff (h.arena.linked.left.shift k) h.arena.linked.right hst

/-- A type of the file with its unit, alone and among others. -/
structure Paired (k : Nat) (f : FileSetting) (p q : Program) (name : String)
    (x y : TypeId × SourceUnit) : Prop where
  left : p.arena.findNamed name f.module = some x.1
  right : q.arena.findNamed name (f.module.shift k) = some y.1
  id_lt : x.2.id.index < p.units.length
  unit : (x.2.shift k).Alike (Same (p.arena.shift k) q.arena) y.2

/-- **A name is declared in both programs or in neither.** -/
theorem Twin.declared? (h : Twin k f.module start p q) (name : String) :
    Option.Rel (Paired k f p q name) (Assembly.declared? f p name)
      (Assembly.declared? (f.shift k) q name) := by
  unfold Assembly.declared?
  simp only [Option.bind_eq_bind]
  rcases optionRel_cases (h.arena.findNamed name) with ⟨hp, hq⟩ | ⟨s, t, hp, hq, -⟩
  · rw [hp, show q.arena.findNamed name (f.shift k).module = none from hq]
    exact .none
  · rw [hp, show q.arena.findNamed name (f.shift k).module = some t from hq, Option.bind_some,
      Option.bind_some]
    rcases optionRel_cases (h.unitOfType? hp hq) with ⟨hu, hv⟩ | ⟨u, v, hu, hv, huv⟩
    · rw [hu, hv]
      exact .none
    · rw [hu, hv]
      exact .some ⟨hp, hq, h.ids u (List.mem_of_find?_eq_some hu), huv⟩

theorem Twin.registered? (h : Twin k f.module start p q) (name : String) (pos : Position) :
    Option.Rel (Paired k f p q name) (Assembly.registered? f p name pos)
      (Assembly.registered? (f.shift k) q name pos) := by
  refine optionRel_filter (h.declared? name) fun x y hxy => ?_
  have hlocation : x.2.location = y.2.location := hxy.unit.location
  dsimp only
  rw [hlocation]
  rfl

theorem Twin.implTarget? (h : Twin k f.module start p q) (type : TypeExpr) :
    Option.Rel (fun x y => ∃ name, Paired k f p q name x y) (Assembly.implTarget? f p type)
      (Assembly.implTarget? (f.shift k) q type) := by
  rw [Assembly.implTarget?_eq, Assembly.implTarget?_eq]
  cases type.implName? with
  | none => exact .none
  | some name => exact optionRel_imp (h.declared? name) fun x y hxy => ⟨name, hxy⟩

end Program

namespace Assembly

variable {α : Type} {k : Nat} {module : UnitId} {f : FileSetting} {start p q : Program}
  {scope scope' : Scope}

/-- Ends of two runs, the first from `p`, that keep a file alone and the file among others in
step. -/
structure Twins (k : Nat) (module : UnitId) (start p : Program)
    (r r' : Except Error Unit × Program) : Prop where
  twin : Twin k module start r.2 r'.2
  size : p.units.length ≤ r.2.units.length
  same : SameOutcome (fun _ _ => True) r.1 r'.1

/-- A failure is reported on both sides under one name. -/
theorem Twins.isolate {m m' : Attempt Program Unit} (h : Twins k module start p (m p) (m' q))
    {unit : UnitId} (hunit : unit.index < p.units.length) (item : String) :
    Twins k module start p (isolate f unit item m p)
      (isolate (f.shift k) (unit.shift k) item m' q) := by
  have hname := h.twin.unitName_eq (Nat.lt_of_lt_of_le hunit h.size)
  obtain ⟨htwin, hsize, hsame⟩ := h
  unfold Assembly.isolate
  generalize m p = r at htwin hsize hsame hname ⊢
  generalize m' q = r' at htwin hsame hname ⊢
  obtain ⟨out, p'⟩ := r
  obtain ⟨out', q'⟩ := r'
  cases hsame with
  | ok => exact ⟨htwin, hsize, .ok trivial⟩
  | error e =>
    dsimp only at hname ⊢
    rw [hname, show (f.shift k).config = f.config from rfl]
    split
    · exact ⟨htwin, hsize, .error e⟩
    · exact ⟨htwin.addDiagnostic _, hsize, .ok trivial⟩

theorem twins_onArena {V : (TypeId → TypeId → Prop) → α → α → Prop} {m m' : Attempt Arena α}
    (h : Twin k module start p q) (hm : Agree ⟨k, p.arena, q.arena⟩ V m m' p.arena q.arena)
    {next next' : α → Attempt Program Unit}
    (hnext : ∀ v w a b, Grown p.arena a → Grown q.arena b →
      Twin k module start { p with arena := a } { q with arena := b } → V (Same (a.shift k) b) v w →
      Twins k module start p (next v { p with arena := a }) (next' w { q with arena := b })) :
    Twins k module start p ((onArena m >>= next) p) ((onArena m' >>= next') q) := by
  obtain ⟨-, -, hab, hsame⟩ := hm
  rw [bind_run, bind_run, onArena, onArena, zoom_run, zoom_run]
  generalize m p.arena = r at hab hsame ⊢
  generalize m' q.arena = r' at hab hsame ⊢
  obtain ⟨out, a⟩ := r
  obtain ⟨out', b⟩ := r'
  have ha : Grown p.arena a := hab.left
  have hb : Grown q.arena b := hab.right
  have htwin := h.withArena (h.arena.grown ha hb) ha.forms hb.forms
  cases hsame with
  | error e => exact ⟨htwin, Nat.le_refl _, .error e⟩
  | @ok v w hvw => exact hnext v w a b ha hb htwin hvw

theorem twins_refuse {what : Construct} {pos : Position} (h : Twin k module start p q)
    (hfile : scope'.file = scope.file) :
    Twins k module start p ((scope.refuse what pos : Attempt Program Unit) p)
      ((scope'.refuse what pos : Attempt Program Unit) q) := by
  have heq : scope'.locate pos = scope.locate pos := by rw [Scope.locate, Scope.locate, hfile]
  rw [Scope.refuse, Scope.refuse, heq]
  exact ⟨h, Nat.le_refl _, .error _⟩

/-! ### Scopes -/

theorem agrees_scope (h : Twin k f.module start p q) :
    f.scope.Agrees ⟨k, p.arena, q.arena⟩ (f.shift k).scope :=
  ⟨h.arena.structs, h.arena.enums, .none, rfl, rfl, rfl⟩

theorem agrees_withSelf (h : Twin k f.module start p q) {s t : TypeId}
    (hst : Same (p.arena.shift k) q.arena s t) (generics : List String) :
    ((f.scope.withSelf s).withGenerics generics).Agrees ⟨k, p.arena, q.arena⟩
      (((f.shift k).scope.withSelf t).withGenerics generics) :=
  ⟨h.arena.structs, h.arena.enums, .some hst, rfl, rfl, rfl⟩

/-! ### Items -/

theorem twins_declareType (h : Twin k f.module start p q) (d : TypeDecl) {kind : UnitKind}
    (hkind : d.kind = kind) :
    Twins k f.module start p (declareType f kind (d.form f.module) d.name d.pos p)
      (declareType (f.shift k) kind (d.form (f.module.shift k)) d.name d.pos q) := by
  refine Twins.isolate ?_ h.module_lt d.name
  rw [registerType, registerType, bind_run, bind_run, get_run, get_run]
  dsimp only
  rcases optionRel_cases (h.arena.findNamed d.name) with ⟨hp, hq⟩ | ⟨s, t, hp, hq, -⟩
  · rw [hp, show q.arena.findNamed d.name (f.shift k).module = none from hq,
      intern_of_not_mem (not_mem_of_findNamed hp), intern_of_not_mem (not_mem_of_findNamed hq),
      ← hkind]
    exact ⟨h.register hp, length_addUnit _ _ ▸ Nat.le_succ _, .ok trivial⟩
  · rw [hp, show q.arena.findNamed d.name (f.shift k).module = some t from hq]
    exact ⟨h, Nat.le_refl _, .error _⟩

theorem twins_skip (h : Twin k module start p q) :
    Twins k module start p (.ok (), p) (.ok (), q) := ⟨h, Nat.le_refl _, .ok trivial⟩

theorem twins_declareItem (h : Twin k f.module start p q) (item : Item) :
    Twins k f.module start p (declareItem f item p) (declareItem (f.shift k) item q) := by
  cases item with
  | struct name pos generics fields => exact twins_declareType h ⟨.struct, name, pos⟩ rfl
  | enum name pos generics variants => exact twins_declareType h ⟨.enum, name, pos⟩ rfl
  | other pos what name => exact Twins.isolate (twins_refuse h rfl) h.module_lt name
  | _ => exact twins_skip h

theorem alike_fieldGlobals {R : TypeId → TypeId → Prop} (decls : List FieldDecl)
    {fs gs : List Field} (h : List.Forall₂ (Field.Alike R) fs gs) :
    List.Forall₂ (Global.Alike R) (List.zipWith (fieldGlobal f) decls fs)
      (List.zipWith (fieldGlobal (f.shift k)) decls gs) := by
  induction h generalizing decls with
  | nil => simp
  | cons hfg _ ih =>
    cases decls with
    | nil => exact .nil
    | cons d decls => exact .cons ⟨hfg.name, hfg.type, rfl⟩ (ih decls)

theorem twins_resolveStruct (h : Twin k f.module start p q) {name : String} {s t : TypeId}
    (hs : p.arena.findNamed name f.module = some s)
    (ht : q.arena.findNamed name (f.module.shift k) = some t) (unit : UnitId)
    (generics : List String) (decls : List FieldDecl) :
    Twins k f.module start p (resolveStruct f s unit generics decls p)
      (resolveStruct (f.shift k) t (unit.shift k) generics decls q) := by
  have hscope := agrees_withSelf h (h.arena.same_of_findNamed hs ht) generics
  refine twins_onArena h (agree_resolveFields hscope h.arena.aligned 0 decls) ?_
  intro fs gs a b ha hb htwin hfs
  rw [← ha.widened.findNamed_eq] at hs
  rw [← hb.widened.findNamed_eq] at ht
  have hglobals := alike_fieldGlobals (f := f) (k := k) decls hfs
  have hunits := htwin.modifyUnit (SourceUnit.id_addGlobals _)
    (fun u v huv => huv.addGlobals hglobals) unit
  have hlayout := htwin.arena.setLayout hs ht (.struct hfs)
  refine ⟨hunits.withArena hlayout (List.prefix_refl _) (List.prefix_refl _), ?_, .ok trivial⟩
  exact Nat.le_of_eq (length_modifyUnit p unit).symm

theorem alike_zipWith {R : TypeId → TypeId → Prop} (names : List String) {xs ys : List VariantShape}
    (h : List.Forall₂ (VariantShape.Alike R) xs ys) :
    List.Forall₂ (Variant.Alike R) (List.zipWith Variant.mk names xs)
      (List.zipWith Variant.mk names ys) := by
  induction h generalizing names with
  | nil => simp
  | cons hxy _ ih =>
    cases names with
    | nil => exact .nil
    | cons name names => exact .cons ⟨rfl, hxy⟩ (ih names)

theorem twins_resolveEnum (h : Twin k f.module start p q) {name : String} {s t : TypeId}
    (hs : p.arena.findNamed name f.module = some s)
    (ht : q.arena.findNamed name (f.module.shift k) = some t) (generics : List String)
    (variants : List VariantDecl) :
    Twins k f.module start p (resolveEnum f s generics variants p)
      (resolveEnum (f.shift k) t generics variants q) := by
  have hscope := agrees_withSelf h (h.arena.same_of_findNamed hs ht) generics
  refine twins_onArena h (agree_resolveShapes hscope h.arena.aligned variants) ?_
  intro xs ys a b ha hb htwin hxs
  rw [← ha.widened.findNamed_eq] at hs
  rw [← hb.widened.findNamed_eq] at ht
  rw [bind_run, bind_run, get_run, get_run]
  have hdisplay : a.display s = b.display t :=
    htwin.arena.aligned.display_eq (htwin.arena.same_of_findNamed hs ht)
  dsimp only [defineEnum]
  rw [← hxs.length_eq, hdisplay]
  split
  · have hlayout := htwin.arena.setLayout hs ht
      (.enum (alike_zipWith (variants.map VariantDecl.name) hxs))
    exact ⟨htwin.withArena hlayout (List.prefix_refl _) (List.prefix_refl _), Nat.le_refl _,
      .ok trivial⟩
  · exact ⟨htwin, Nat.le_refl _, .error _⟩

theorem twins_resolveConst (h : Twin k f.module start p q)
    (hs : scope.Agrees ⟨k, p.arena, q.arena⟩ scope') {unit : UnitId}
    (hunit : unit.index < p.units.length) (name : String) (pos : Position) (type : TypeAnn) :
    Twins k f.module start p (resolveConst f scope unit name pos type p)
      (resolveConst (f.shift k) scope' (unit.shift k) name pos type q) := by
  refine Twins.isolate ?_ hunit name
  refine twins_onArena h (agree_resolve hs h.arena.aligned type.type) ?_
  intro s t a b _ _ htwin hst
  have hglobal : Global.Alike (Same (a.shift k) b) ⟨name, s, f.locate pos⟩ ⟨name, t, f.locate pos⟩ :=
    ⟨rfl, hst, rfl⟩
  have hunits := htwin.modifyUnit (fun u => u.id_addGlobal _)
    (fun u v huv => (SourceUnit.shift_addGlobal k u _).symm ▸ huv.addGlobal hglobal) unit
  exact ⟨hunits, Nat.le_of_eq (length_modifyUnit p unit).symm, .ok trivial⟩

theorem twins_lowerFunction (h : Twin k f.module start p q)
    (hs : scope.Agrees ⟨k, p.arena, q.arena⟩ scope') {unit : UnitId}
    (hunit : unit.index < p.units.length) (fn : FnDecl) :
    Twins k f.module start p (lowerFunction f scope unit fn p)
      (lowerFunction (f.shift k) scope' (unit.shift k) fn q) := by
  refine Twins.isolate ?_ hunit fn.name
  refine twins_onArena h
    (agree_lowerFunction (hs.withGenerics fn.generics) h.arena.aligned f.config unit rfl fn) ?_
  intro c c' a b _ _ htwin hc
  have hid (u : SourceUnit) : (u.addCfg c).id = u.id := rfl
  have hunits := htwin.modifyUnit hid (fun u v huv => huv.addCfg hc) unit
  exact ⟨hunits, Nat.le_of_eq (length_modifyUnit p unit).symm, .ok trivial⟩

theorem twins_lowerMember (h : Twin k f.module start p q)
    (hs : scope.Agrees ⟨k, p.arena, q.arena⟩ scope') {unit : UnitId}
    (hunit : unit.index < p.units.length) (member : Member) :
    Twins k f.module start p (lowerMember f scope unit member p)
      (lowerMember (f.shift k) scope' (unit.shift k) member q) := by
  cases member with
  | method fn => exact twins_lowerFunction h hs hunit fn
  | const name pos type => exact twins_resolveConst h hs hunit name pos type
  | other pos => exact Twins.isolate (twins_refuse h hs.file) hunit "impl"

theorem twins_resolveItem (h : Twin k f.module start p q) (item : Item) :
    Twins k f.module start p (resolveItem f item p) (resolveItem (f.shift k) item q) := by
  cases item with
  | struct name pos generics fields =>
    rw [resolveItem, resolveItem, bind_run, bind_run, get_run, get_run]
    dsimp only
    rcases optionRel_cases (h.registered? name pos) with ⟨hp, hq⟩ | ⟨x, y, hp, hq, hxy⟩
    · rw [hp, hq]
      exact twins_skip h
    · rw [hp, hq]
      dsimp only
      rw [← hxy.unit.id]
      exact Twins.isolate (twins_resolveStruct h hxy.left hxy.right _ _ _) hxy.id_lt name
  | enum name pos generics variants =>
    rw [resolveItem, resolveItem, bind_run, bind_run, get_run, get_run]
    dsimp only
    rcases optionRel_cases (h.registered? name pos) with ⟨hp, hq⟩ | ⟨x, y, hp, hq, hxy⟩
    · rw [hp, hq]
      exact twins_skip h
    · rw [hp, hq]
      dsimp only
      rw [← hxy.unit.id]
      exact Twins.isolate (twins_resolveEnum h hxy.left hxy.right _ _) hxy.id_lt name
  | const name pos type => exact twins_resolveConst h (agrees_scope h) h.module_lt name pos type
  | _ => exact twins_skip h

/-- **The step of assembly.**  A part does the same for the file alone and among others. -/
theorem twins_run (h : Twin k f.module start p q) (part : Part) :
    Twins k f.module start p (part.run f p) (part.run (f.shift k) q) := by
  cases part with
  | declare item => exact twins_declareItem h item
  | resolve item => exact twins_resolveItem h item
  | function fn => exact twins_lowerFunction h (agrees_scope h) h.module_lt fn
  | member generics self member =>
    rw [Part.run, Part.run, bind_run, bind_run, get_run, get_run]
    dsimp only
    rcases optionRel_cases (h.implTarget? self.type) with ⟨hp, hq⟩ | ⟨x, y, hp, hq, name, hxy⟩
    · rw [hp, hq]
      exact twins_skip h
    · rw [hp, hq]
      dsimp only
      rw [← hxy.unit.id]
      have hst := h.arena.same_of_findNamed hxy.left hxy.right
      exact twins_lowerMember h (agrees_withSelf h hst generics) hxy.id_lt member
  | refused self => exact Twins.isolate (twins_refuse h rfl) h.module_lt self.text

/-- **The run.**  All parts of a file keep the file alone and among others in step. -/
theorem twins_each (h : Twin k f.module start p q) (parts : List Part) :
    Twin k f.module start (each (Part.run f) parts p).2 (each (Part.run (f.shift k)) parts q).2 := by
  induction parts generalizing p q with
  | nil => exact h
  | cons part parts ih =>
    obtain ⟨htwin, -, hsame⟩ := twins_run h part
    rw [each, each, bind_run, bind_run]
    generalize part.run f p = r at htwin hsame ⊢
    generalize part.run (f.shift k) q = r' at htwin hsame ⊢
    obtain ⟨out, p'⟩ := r
    obtain ⟨out', q'⟩ := r'
    cases hsame with
    | ok => exact ih htwin
    | error e => exact htwin

end Assembly

/-! ### Files -/

namespace Program

open Assembly

variable {start : Program}

theorem Indexed.owner_lt {p : Program} (h : p.Indexed) {f : TypeForm} (hf : f ∈ p.arena.forms)
    {o : UnitId} (ho : f.owner? = some o) : o.index < p.units.length := by
  cases f with
  | struct name owner =>
    cases ho
    exact h.owners name o fun hnone => (findNamed_eq_none.1 hnone).1 hf
  | enum name owner =>
    cases ho
    exact h.owners name o fun hnone => (findNamed_eq_none.1 hnone).2 hf
  | _ => cases ho

theorem twin_opened (h : start.Indexed) (config : Config) (file : String) :
    Twin start.units.length ⟨0⟩ start (opened ⟨config, file, ⟨0⟩⟩ empty)
      (opened (FileSetting.shift start.units.length ⟨config, file, ⟨0⟩⟩) start) := by
  refine ⟨h, rfl, grafted_empty h.arena (fun f hf o => h.owner_lt hf) ⟨0⟩, fun u hu => ?_,
    Nat.zero_lt_one, ⟨_, rfl, .cons ?_ .nil⟩, (List.append_nil _).symm⟩
  · rw [List.mem_singleton.1 hu]
    exact Nat.zero_lt_one
  · exact ⟨rfl, rfl, rfl, rfl, rfl, .none, .nil, .nil⟩

/-- **A file alone and the file after others are assembled to the same units, types and
reports.** -/
theorem twin_assemble (h : start.Indexed) (config : Config) (file : String) (items : List Item) :
    Twin start.units.length ⟨0⟩ start (assemble config file items empty).2
      (assemble config file items start).2 := by
  have hfile : (⟨config, file, start.nextUnit⟩ : FileSetting) =
      FileSetting.shift start.units.length ⟨config, file, ⟨0⟩⟩ := by
    rw [FileSetting.shift, UnitId.shift, Nat.zero_add]
    rfl
  rw [assemble_parts indexed_empty, assemble_parts h, hfile]
  exact twins_each (f := ⟨config, file, ⟨0⟩⟩) (twin_opened h config file) (parts items)

end Program

end RustFlow
