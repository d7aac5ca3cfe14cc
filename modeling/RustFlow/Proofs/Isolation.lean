/-
# Files do not see each other

A program of several files is made of the programs of the single files.  File after file,
its units are those of the file alone, with ids moved past the units before them, and the
types of the file alone correspond one to one to types of the whole (`Embedded`).

The structs and enums of a file are owned by its module.  All types in the units of a file
and in the layouts of its structs and enums are built over those alone (`OwnedBy`), so no
name in one file stands for a struct or enum of another, also if the names are equal or the
files are the same.
-/

import RustFlow.Proofs.Accounting
import RustFlow.Proofs.Grafting
import RustFlow.Proofs.Liveness

namespace RustFlow

open Arena Program

/-- A type that is built over structs and enums of one module only. -/
inductive Arena.OwnedBy (a : Arena) (owner : UnitId) : TypeId → Prop where
  | mk {t : TypeId} {f : TypeForm} : a.forms[t.index]? = some f →
      (∀ o, f.owner? = some o → o = owner) → (∀ s ∈ f.parts, OwnedBy a owner s) → OwnedBy a owner t

theorem shift_origin (k : Nat) : UnitId.shift k ⟨0⟩ = ⟨k⟩ := congrArg UnitId.mk (Nat.zero_add k)

/-- A type that corresponds to one of a file alone is built over structs and enums of the
module that the file has among others. -/
theorem Arena.Same.ownedBy {k : Nat} {a b : Arena} {s t : TypeId}
    (hown : ∀ f ∈ a.forms, ∀ o, f.owner? = some o → o = ⟨0⟩) (hst : Same (a.shift k) b s t) :
    b.OwnedBy ⟨k⟩ t := by
  induction hst with
  | @mk s t f g R hR hf hg halike ih =>
    rw [getElem?_shift, Option.map_eq_some_iff] at hf
    obtain ⟨f, hf, rfl⟩ := hf
    refine .mk hg (fun o ho => ?_) fun y hy => ?_
    · have hn := halike.isNamed_eq.trans (TypeForm.isNamed_of_owner? ho)
      rw [← halike.eq_of_isNamed hn, TypeForm.owner?_shift, Option.map_eq_some_iff] at ho
      obtain ⟨o', ho', rfl⟩ := ho
      rw [hown f (List.mem_of_getElem? hf) o' ho', shift_origin]
    · obtain ⟨x, -, hxy⟩ := forall₂_left halike.related.flip hy
      exact ih x y hxy

theorem SourceUnit.Alike.handles {R : TypeId → TypeId → Prop} {u v : SourceUnit} (h : u.Alike R v) :
    List.Forall₂ R u.handles v.handles := by
  refine List.rel_append (List.rel_append ?_ ?_) (List.rel_flatMap h.cfgs fun _ _ hc => hc.handles)
  · have htype := h.type
    generalize u.type = o at htype ⊢
    generalize v.type = o' at htype ⊢
    cases htype with
    | none => exact .nil
    | some hst => exact .cons hst .nil
  · rw [List.forall₂_map_left_iff, List.forall₂_map_right_iff]
    exact h.globals.imp fun _ _ hg => hg.type

namespace Program

variable {k k' : Nat} {module : UnitId} {start p p' q r : Program} {us vs : List SourceUnit}
  {s t : TypeId}

/-! ### The copy of a file -/

/-- The units `us` of a program `p`, with `k` units before them, and its types are those of
`q`, which was built alone. -/
structure Copied (k : Nat) (q p : Program) (us : List SourceUnit) : Prop where
  linked : (Ground.mk k q.arena p.arena).Linked
  structs : ∀ name, Option.Rel (Same (q.arena.shift k) p.arena) (q.arena.findStruct name ⟨0⟩)
    (p.arena.findStruct name ⟨k⟩)
  enums : ∀ name, Option.Rel (Same (q.arena.shift k) p.arena) (q.arena.findEnum name ⟨0⟩)
    (p.arena.findEnum name ⟨k⟩)
  own : ∀ f ∈ q.arena.forms, ∀ o, f.owner? = some o → o = ⟨0⟩
  units : List.Forall₂ (fun u v => (u.shift k).Alike (Same (q.arena.shift k) p.arena) v) q.units us
  nonempty : 0 < q.units.length

theorem Twin.copied (h : Twin k ⟨0⟩ start q p) :
    ∃ us, p.units = start.units ++ us ∧ Copied k q p us := by
  obtain ⟨us, hunits, hus⟩ := h.units
  have hstructs := h.arena.structs
  have henums := h.arena.enums
  rw [shift_origin] at hstructs henums
  exact ⟨us, hunits, h.arena.linked, hstructs, henums, h.arena.own, hus, h.module_lt⟩

/-- **A copy is left alone by the files that follow.** -/
theorem Copied.later (h : Copied k q p us) (hp : Grafted k' ⟨0⟩ p.arena r.arena p'.arena)
    (hk : k < k') : Copied k q p' us := by
  have hto (s t : TypeId) (hst : Same (q.arena.shift k) p.arena s t) :
      Same (q.arena.shift k) p'.arena s t := hst.mono (List.prefix_refl _) hp.forms
  have hold {f : TypeForm} (hf : f ∈ p'.arena.forms) (ho : f.owner? = some ⟨k⟩) :
      f ∈ p.arena.forms := by
    rcases hp.added f hf with hf | hnew
    · exact hf
    · have hkk : (⟨k⟩ : UnitId) = ⟨k'⟩ := (hnew _ ho).trans (shift_origin k')
      cases hkk
      exact absurd hk (Nat.lt_irrefl k)
  have hlookup {f : TypeForm} (ho : f.owner? = some ⟨k⟩) : p'.arena.lookup f = p.arena.lookup f :=
    hp.linked.right.lookup_eq hp.forms fun hf => hold hf ho
  refine ⟨⟨h.linked.left, hp.linked.right, fun s t hst => ?_⟩, fun name => ?_, fun name => ?_, h.own,
    h.units.imp fun u v => .mono hto, h.nonempty⟩
  · refine layout?_rel h.linked.left hp.linked.right hst fun f hf hg hn => ?_
    have ho : (f.shift k).owner? = some ⟨k⟩ := by
      obtain ⟨o, ho⟩ := TypeForm.owner?_of_isNamed hn
      rw [TypeForm.owner?_shift, ho, h.own f (List.mem_of_getElem? hf) o ho, Option.map_some,
        shift_origin]
    have hat := hp.linked.right.forms_of_mem hp.forms
      (hold (List.mem_of_getElem? hg) ho) hg
    have hlayout := hp.layouts t (live_of_forms hat)
    rw [hlayout]
    exact optionRel_imp (h.linked.layouts s t (same_of_isNamed hf hat hn)) fun _ _ => .mono hto
  · rw [findStruct, findStruct, hlookup rfl]
    exact optionRel_imp (h.structs name) hto
  · rw [findEnum, findEnum, hlookup rfl]
    exact optionRel_imp (h.enums name) hto

/-! ### What a copy is -/

/-- A program `q` stands in a program `p` with `k` units before its own, which are `us`. -/
structure Embedded (k : Nat) (q p : Program) (us : List SourceUnit) : Prop where
  /-- Types that correspond do so one to one. -/
  unique : ∀ s s' t t', Same (q.arena.shift k) p.arena s t → Same (q.arena.shift k) p.arena s' t' →
    (s = s' ↔ t = t')
  /-- The units are the same, with their globals and graphs. -/
  units : List.Forall₂ (fun u v => (u.shift k).Alike (Same (q.arena.shift k) p.arena) v) q.units us
  /-- The names of structs and enums stand for the same types. -/
  structs : ∀ name, Option.Rel (Same (q.arena.shift k) p.arena) (q.arena.findStruct name ⟨0⟩)
    (p.arena.findStruct name ⟨k⟩)
  enums : ∀ name, Option.Rel (Same (q.arena.shift k) p.arena) (q.arena.findEnum name ⟨0⟩)
    (p.arena.findEnum name ⟨k⟩)
  /-- These have the same members. -/
  layouts : ∀ s t, Same (q.arena.shift k) p.arena s t →
    Option.Rel (Layout.Alike (Same (q.arena.shift k) p.arena)) (q.arena.layout? s) (p.arena.layout? t)
  /-- Neither the units nor the members have types of other modules. -/
  owned : ∀ u ∈ us, ∀ t ∈ u.handles, p.arena.OwnedBy ⟨k⟩ t
  members : ∀ name t l, p.arena.findNamed name ⟨k⟩ = some t → p.arena.layout? t = some l →
    ∀ x ∈ l.types, p.arena.OwnedBy ⟨k⟩ x
  /-- In the module no type expression stands for such a type. -/
  resolution : ∀ (scope : Scope) (self : Option TypeId), scope.owner = ⟨k⟩ →
    Option.Rel (Same (q.arena.shift k) p.arena) self scope.selfType →
    ∀ e t a, scope.resolve e p.arena = (.ok t, a) → a.OwnedBy ⟨k⟩ t

theorem Copied.ownedBy (h : Copied k q p us) (hst : Same (q.arena.shift k) p.arena s t) :
    p.arena.OwnedBy ⟨k⟩ t := hst.ownedBy h.own

theorem Copied.members (h : Copied k q p us) {name : String} {l : Layout}
    (ht : p.arena.findNamed name ⟨k⟩ = some t) (hl : p.arena.layout? t = some l) :
    ∀ x ∈ l.types, p.arena.OwnedBy ⟨k⟩ x := by
  intro x hx
  obtain ⟨s, hst⟩ : ∃ s, Same (q.arena.shift k) p.arena s t := by
    have hrel : Option.Rel (Same (q.arena.shift k) p.arena) (q.arena.findNamed name ⟨0⟩)
        (p.arena.findNamed name ⟨k⟩) := optionRel_or (h.structs name) (h.enums name)
    rw [ht] at hrel
    rcases optionRel_cases hrel with ⟨-, hnone⟩ | ⟨s, t', -, heq, hst⟩
    · cases hnone
    · cases heq
      exact ⟨s, hst⟩
  rcases optionRel_cases (h.linked.layouts s t hst) with ⟨-, hnone⟩ | ⟨l', l'', -, heq, hlayout⟩
  · cases hnone.symm.trans hl
  · cases heq.symm.trans hl
    obtain ⟨y, -, hyx⟩ := forall₂_left hlayout.types.flip hx
    exact h.ownedBy hyx

theorem Copied.resolution (h : Copied k q p us) {scope : Scope} {self : Option TypeId}
    (hscope : scope.owner = ⟨k⟩)
    (hself : Option.Rel (Same (q.arena.shift k) p.arena) self scope.selfType) {e : Ast.TypeExpr}
    {a : Arena} (ht : scope.resolve e p.arena = (.ok t, a)) : a.OwnedBy ⟨k⟩ t := by
  obtain ⟨owner, self', generics, strict, file⟩ := scope
  cases hscope
  have hs : Scope.Agrees ⟨k, q.arena, p.arena⟩ ⟨⟨0⟩, self, generics, strict, file⟩
      ⟨⟨k⟩, self', generics, strict, file⟩ := ⟨h.structs, h.enums, hself, rfl, rfl, rfl⟩
  have hagree := agree_resolve hs ⟨h.linked, .refl h.linked.left, .refl h.linked.right, trivial⟩ e
  have hsame := hagree.same
  have hleft := hagree.aligned.grown_left
  rw [ht] at hsame
  generalize Scope.resolve _ e q.arena = out at hsame hleft
  obtain ⟨out, b⟩ := out
  cases hsame with
  | ok hst =>
    refine hst.ownedBy fun f hf o ho => ?_
    obtain ⟨i, hi⟩ := List.getElem?_of_mem hf
    have hbase := hleft.forms_of_isNamed (s := ⟨i⟩) hi (TypeForm.isNamed_of_owner? ho)
    exact h.own f (List.mem_of_getElem? hbase) o ho

theorem Copied.embedded (h : Copied k q p us) : Embedded k q p us := by
  refine ⟨fun s s' t t' => Same.eq_iff (h.linked.left.shift k) h.linked.right, h.units, h.structs,
    h.enums, h.linked.layouts, fun v hv t ht => ?_, fun name t l ht hl => h.members ht hl,
    fun scope self hscope hself e t a ht => h.resolution hscope hself ht⟩
  obtain ⟨u, -, huv⟩ := forall₂_left h.units.flip hv
  obtain ⟨s, -, hst⟩ := forall₂_left huv.handles.flip ht
  exact h.ownedBy hst

/-! ### Files one after the other -/

/-- Units of several files, one file after the other, and what holds of the units of each. -/
inductive Laid (C : Nat → Program → List SourceUnit → Prop) :
    Nat → List Program → List SourceUnit → Prop where
  | nil {k : Nat} : Laid C k [] []
  | cons {k : Nat} {q : Program} {qs : List Program} {us vs : List SourceUnit} : C k q us →
      Laid C (k + us.length) qs vs → Laid C k (q :: qs) (us ++ vs)

/-- The ids of the modules of files that are laid out one after the other. -/
def starts : Nat → List Program → List Nat
  | _, [] => []
  | k, q :: qs => k :: starts (k + q.units.length) qs

section Laid

variable {C D : Nat → Program → List SourceUnit → Prop} {qs : List Program}

theorem Laid.imp (h : Laid C k qs us)
    (hCD : ∀ i q vs, i + vs.length ≤ k + us.length → C i q vs → D i q vs) : Laid D k qs us := by
  induction h with
  | nil => exact .nil
  | @cons k q qs us vs hq _ ih =>
    rw [List.length_append] at hCD
    refine .cons (hCD k q us (by omega) hq) (ih fun i r ws hi => hCD i r ws ?_)
    omega

theorem Laid.concat (h : Laid C k qs us) (hq : C (k + us.length) q vs) :
    Laid C k (qs ++ [q]) (us ++ vs) := by
  induction h with
  | nil =>
    show Laid C _ [q] vs
    rw [← List.append_nil vs]
    exact .cons hq .nil
  | @cons k r qs us ws hr _ ih =>
    rw [List.append_assoc]
    refine .cons hr (ih ?_)
    rwa [List.length_append, ← Nat.add_assoc] at hq

theorem Laid.of_mem (h : Laid C k qs us) (hq : q ∈ qs) : ∃ i vs, C i q vs := by
  induction h with
  | nil => cases hq
  | cons hr _ ih =>
    rcases List.mem_cons.1 hq with rfl | hq
    · exact ⟨_, _, hr⟩
    · exact ih hq

theorem Laid.starts_concat (h : Laid C k qs us) (hC : ∀ i q vs, C i q vs → q.units.length = vs.length)
    (q : Program) : starts k (qs ++ [q]) = starts k qs ++ [k + us.length] := by
  induction h with
  | nil => rfl
  | @cons k r qs us ws hr _ ih =>
    rw [List.cons_append, starts, starts, hC k r us hr, ih, List.cons_append, List.length_append,
      Nat.add_assoc]

theorem le_of_mem_starts {i : Nat} (hi : i ∈ starts k qs) : k ≤ i := by
  induction qs generalizing k with
  | nil => cases hi
  | cons q qs ih =>
    rcases List.mem_cons.1 hi with rfl | hi
    · exact Nat.le_refl i
    · exact Nat.le_trans (Nat.le_add_right ..) (ih hi)

theorem starts_pairwise (h : ∀ q ∈ qs, 0 < q.units.length) : (starts k qs).Pairwise (· < ·) := by
  induction qs generalizing k with
  | nil => exact .nil
  | cons q qs ih =>
    refine .cons (fun i hi => ?_) (ih fun r hr => h r (List.mem_cons_of_mem _ hr))
    exact Nat.lt_of_lt_of_le (Nat.lt_add_of_pos_right (h q List.mem_cons_self)) (le_of_mem_starts hi)

end Laid

/-! ### Programs of several files -/

/-- A program that is made of the programs `qs`. -/
structure Modular (qs : List Program) (p : Program) : Prop where
  indexed : p.Indexed
  laid : Laid (fun k q us => Copied k q p us) 0 qs p.units
  diagnostics : p.diagnostics = qs.flatMap diagnostics
  owners : ∀ f ∈ p.arena.forms, ∀ o, f.owner? = some o → o.index ∈ starts 0 qs

section Modular

variable {qs : List Program} {config : Config} {parse : String → Option (List Ast.Item)}

theorem modular_empty : Modular [] empty :=
  ⟨indexed_empty, .nil, rfl, fun f hf o ho => by
    rw [TypeForm.owner?_eq_none (isNamed_of_mem_empty hf)] at ho
    cases ho⟩

/-- **One more file.**  The files before it are left as they are. -/
theorem Modular.assemble (h : Modular qs p) (config : Config) (file : String)
    (items : List Ast.Item) :
    Modular (qs ++ [(assemble config file items empty).2]) (assemble config file items p).2 := by
  have htwin := twin_assemble h.indexed config file items
  obtain ⟨us, hunits, hus⟩ := htwin.copied
  refine ⟨h.indexed.assemble config file items, ?_, ?_, fun f hf o ho => ?_⟩
  · rw [hunits]
    refine (h.laid.imp fun i q vs hi hq => hq.later htwin.arena ?_).concat ?_
    · have hpos := hq.units.length_eq ▸ hq.nonempty
      omega
    · rwa [Nat.zero_add]
  · rw [htwin.diagnostics, h.diagnostics, List.flatMap_append, List.flatMap_singleton]
  · rw [h.laid.starts_concat (fun i q vs hq => hq.units.length_eq), List.mem_append]
    rcases htwin.arena.added f hf with hold | hnew
    · exact .inl (h.owners f hold o ho)
    · rw [hnew o ho, shift_origin, Nat.zero_add]
      exact .inr (List.mem_singleton_self _)

theorem addSource_eq (hff : config.failFast = false) (hp : p.Indexed) {source : String}
    {items : List Ast.Item} (hitems : parse source = some items) (file : String) :
    addSource parse config p file source = .ok (assemble config file items p).2 := by
  have hok : (assemble config file items p).1 = .ok () := by
    rw [Assembly.assemble_parts hp]
    exact Assembly.ok_each (Assembly.ok_run hff) _ _
  simp only [addSource, hitems]
  generalize Program.assemble config file items p = out at hok ⊢
  obtain ⟨out, after⟩ := out
  cases hok
  rfl

theorem Modular.addFiles (hff : config.failFast = false) {read : String → Option String}
    {files : List String} (h : Modular qs p)
    (hfiles : ∀ file ∈ files, ∃ source, read file = some source ∧
      (parse source).isSome = true) :
    ∃ rs p', addFiles parse config read p files = .ok p' ∧
      List.Forall₂ (fun file r => ∃ source, read file = some source ∧
        build config file source parse = .ok r) files rs ∧ Modular (qs ++ rs) p' := by
  induction files generalizing qs p with
  | nil => exact ⟨[], p, rfl, .nil, (List.append_nil qs).symm ▸ h⟩
  | cons file files ih =>
    obtain ⟨source, hread, hsome⟩ := hfiles file List.mem_cons_self
    obtain ⟨items, hitems⟩ := Option.isSome_iff_exists.1 hsome
    obtain ⟨rs, p', hp', hrs, hmodular⟩ := ih (h.assemble config file items)
      fun file hfile => hfiles file (List.mem_cons_of_mem _ hfile)
    refine ⟨_ :: rs, p', ?_, .cons ⟨source, hread, addSource_eq hff indexed_empty hitems file⟩ hrs, ?_⟩
    · simp only [Program.addFiles, hread, addSource_eq hff h.indexed hitems file]
      exact hp'
    · rwa [List.append_assoc] at hmodular

end Modular

/-- **Files do not see each other.**  Files that can be read give, without `failFast`, one
program after the other: for each file the units, globals, layouts, graphs and reports that it
has alone, behind those of the files before it.  Each file has a module of its own, which owns
its structs and enums, and no name in it stands for those of another module. -/
theorem buildFiles_isolated {config : Config} (hff : config.failFast = false)
    {parse : String → Option (List Ast.Item)} {read : String → Option String} {files : List String}
    (hfiles : ∀ file ∈ files, ∃ source, read file = some source ∧ (parse source).isSome = true) :
    ∃ qs p, buildFiles config read files parse = .ok p ∧
      List.Forall₂ (fun file q => ∃ source, read file = some source ∧
        build config file source parse = .ok q) files qs ∧
      p.diagnostics = qs.flatMap diagnostics ∧
      Laid (fun k q us => Embedded k q p us) 0 qs p.units ∧
      (starts 0 qs).Pairwise (· < ·) ∧
      ∀ f ∈ p.arena.forms, ∀ o, f.owner? = some o → o.index ∈ starts 0 qs := by
  obtain ⟨qs, p, hp, hqs, hmodular⟩ := modular_empty.addFiles hff hfiles
  rw [List.nil_append] at hmodular
  refine ⟨qs, p, hp, hqs, hmodular.diagnostics, hmodular.laid.imp fun _ _ _ _ hq => hq.embedded,
    starts_pairwise fun q hq => ?_, hmodular.owners⟩
  obtain ⟨_, _, hcopied⟩ := hmodular.laid.of_mem hq
  exact hcopied.nonempty

/-- A struct and an enum of one name in two files; the second file has a function that fails. -/
def namesakes : String → Option String
  | "a.rs" => some "struct P { next: *mut P } impl P { fn f(self) -> P { self } }"
  | "b.rs" => some "enum P { A(P), B } fn g(p: &P, q: Q) {}"
  | _ => none

/-- The first file is listed twice and has two structs then. -/
theorem buildFiles_isolated_namesakes :
    (∀ file ∈ ["a.rs", "b.rs", "a.rs"], ∃ source, namesakes file = some source ∧
      (Grammar.readFile? source).isSome = true) ∧
    ∃ qs p, buildFiles {} namesakes ["a.rs", "b.rs", "a.rs"] = .ok p ∧
      (p.arena.forms.drop 19 == [.struct "P" ⟨0⟩, .pointer ⟨19⟩ true, .enum "P" ⟨2⟩,
        .reference ⟨21⟩ false, .struct "P" ⟨4⟩, .pointer ⟨23⟩ true] &&
        p.units.length == 6 && p.diagnostics.length == 1) = true ∧
      p.diagnostics = qs.flatMap diagnostics ∧
      Laid (fun k q us => Embedded k q p us) 0 qs p.units ∧
      (starts 0 qs).Pairwise (· < ·) ∧ ∀ i ∈ [0, 2, 4], i ∈ starts 0 qs := by
  have hfiles : ∀ file ∈ ["a.rs", "b.rs", "a.rs"], ∃ source, namesakes file = some source ∧
      (Grammar.readFile? source).isSome = true := by
    simp only [List.forall_mem_cons]
    exact ⟨⟨_, rfl, by decide +kernel⟩, ⟨_, rfl, by decide +kernel⟩, ⟨_, rfl, by decide +kernel⟩, nofun⟩
  have hff : ({} : Config).failFast = false := rfl
  obtain ⟨qs, p, hp, -, hdiagnostics, hlaid, hstarts, howners⟩ := buildFiles_isolated hff hfiles
  obtain ⟨p', hp', hforms⟩ := exists_of_any
    (x := buildFiles {} namesakes ["a.rs", "b.rs", "a.rs"])
    (P := fun p => p.arena.forms.drop 19 == [.struct "P" ⟨0⟩, .pointer ⟨19⟩ true, .enum "P" ⟨2⟩,
        .reference ⟨21⟩ false, .struct "P" ⟨4⟩, .pointer ⟨23⟩ true] &&
        p.units.length == 6 && p.diagnostics.length == 1) (by decide +kernel)
  cases hp.symm.trans hp'
  refine ⟨hfiles, qs, p, hp, hforms, hdiagnostics, hlaid, hstarts, ?_⟩
  simp only [Bool.and_eq_true, beq_iff_eq] at hforms
  have hmem {f : TypeForm} (hf : f ∈ p.arena.forms.drop 19) : f ∈ p.arena.forms :=
    List.mem_of_mem_drop hf
  rw [hforms.1.1] at hmem
  simp only [List.forall_mem_cons]
  exact ⟨howners _ (hmem (f := .struct "P" ⟨0⟩) (by simp)) _ rfl,
    howners _ (hmem (f := .enum "P" ⟨2⟩) (by simp)) _ rfl,
    howners _ (hmem (f := .struct "P" ⟨4⟩) (by simp)) _ rfl, nofun⟩

end Program

end RustFlow
