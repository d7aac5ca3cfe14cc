/-
# Patterns and expressions agree

A context is an arena and the local variables.  Two contexts are alike if the same
names are bound in the same order to corresponding types.  Lowering a pattern or an
expression in two such contexts gives alike terms or one error.

The structs, enums and variants that a path names are those that the arenas grew from,
so a path stands for corresponding things in both.  Where a term's type depends on
whether two types are equal, the answer is the same in both, since types correspond one
to one.
-/

import RustFlow.Proofs.Agreement

namespace RustFlow

open Arena Ast

variable {base : Ground} {a b : Arena} {s t : TypeId} {R : TypeId → TypeId → Prop}
  {scope scope' : Scope}

/-! ### Contexts -/

/-- The same names bound in the same order, to related types. -/
def LocalsAlike (R : TypeId → TypeId → Prop) : Locals → Locals → Prop :=
  List.Forall₂ fun p q => p.1 = q.1 ∧ R p.2.type q.2.type ∧ p.2.mutable = q.2.mutable

instance : Typed Context where
  arena := Context.arena
  Alike R c d := LocalsAlike R c.locals d.locals
  mono hRS h := h.imp fun _ _ ⟨hn, ht, hm⟩ => ⟨hn, hRS _ _ ht, hm⟩

variable {c d : Context}

theorem Aligned.arena (h : Aligned base c d) : Aligned base c.arena d.arena :=
  ⟨h.linked, h.left, h.right, trivial⟩

theorem Agree.onArena {α : Type} {V : (TypeId → TypeId → Prop) → α → α → Prop}
    {m m' : Attempt Arena α} (hcd : Aligned base c d) (h : Agree base V m m' c.arena d.arena) :
    Agree base V (Context.onArena m) (Context.onArena m') c d :=
  h.zoom hcd (fun _ => rfl) (fun _ _ => rfl) fun _ _ _ _ h => h

theorem LocalsAlike.bind {l l' : Locals} (h : LocalsAlike R l l') (v : Variable) (hst : R s t) :
    LocalsAlike R (l.bind v s) (l'.bind v t) := .cons ⟨rfl, hst, rfl⟩ h

theorem forall₂_lookup {α : Type} {P : α → α → Prop} {xs ys : List (String × α)}
    (h : List.Forall₂ (fun p q => p.1 = q.1 ∧ P p.2 q.2) xs ys) (name : String) :
    Option.Rel P (xs.lookup name) (ys.lookup name) := by
  induction h with
  | nil => exact .none
  | @cons p q xs ys hpq _ ih =>
    obtain ⟨n, x⟩ := p
    obtain ⟨n', y⟩ := q
    obtain ⟨rfl : n = n', hxy⟩ := hpq
    simp only [List.lookup_cons]
    split
    · exact .some hxy
    · exact ih

theorem Aligned.local? (h : Aligned base c d) (name : String) :
    Option.Rel (fun x y => Types base c d x.type y.type ∧ x.mutable = y.mutable) (c.local? name)
      (d.local? name) :=
  forall₂_lookup (P := fun (x y : Local) => Types base c d x.type y.type ∧ x.mutable = y.mutable) h.alike name

theorem Aligned.localType (h : Aligned base c d) (name : String) :
    Types base c d (c.localType name) (d.localType name) := by
  unfold Context.localType
  rcases optionRel_cases (h.local? name) with ⟨hc, hd⟩ | ⟨x, y, hc, hd, hxy, -⟩
  · rw [hc, hd]
    exact h.arena.same_unknown
  · rw [hc, hd]
    exact hxy

theorem Aligned.mention_eq (h : Aligned base c d) (name : String) :
    c.mention name = d.mention name := by
  unfold Context.mention
  rcases optionRel_cases (h.local? name) with ⟨hc, hd⟩ | ⟨x, y, hc, hd, -, hm⟩
  · rw [hc, hd]
  · rw [hc, hd, Option.map_some, Option.map_some, hm]

/-! ### Members -/

theorem Aligned.fields (h : Aligned base a b) (hst : Types base a b s t) :
    List.Forall₂ (Field.Alike (Types base a b)) (a.fields s) (b.fields t) := by
  unfold Arena.fields
  rcases optionRel_cases (h.layout? hst) with ⟨ha, hb⟩ | ⟨l, l', ha, hb, hl⟩
  · rw [ha, hb]
    exact .nil
  · rw [ha, hb]
    cases hl with
    | struct hfs => exact hfs
    | enum => exact .nil

theorem Aligned.variant? (h : Aligned base a b) (hst : Types base a b s t) (name : String) :
    Option.Rel (Variant.Alike (Types base a b)) (a.variant? s name) (b.variant? t name) := by
  have hvariants : List.Forall₂ (Variant.Alike (Types base a b)) (a.variants s) (b.variants t) := by
    unfold Arena.variants
    rcases optionRel_cases (h.layout? hst) with ⟨ha, hb⟩ | ⟨l, l', ha, hb, hl⟩
    · rw [ha, hb]
      exact .nil
    · rw [ha, hb]
      cases hl with
      | struct => exact .nil
      | enum hvs => exact hvs
  exact forall₂_find? hvariants fun v w hvw => by rw [hvw.name]

theorem Aligned.same_found (h : Aligned base a b) {fs gs : List Field}
    (hfs : List.Forall₂ (Field.Alike (Types base a b)) fs gs) (name : String) :
    Types base a b (((fs.find? fun f => f.name == name).map Field.type).getD .unknown)
      (((gs.find? fun f => f.name == name).map Field.type).getD .unknown) := by
  have hfind := forall₂_find? (p := fun f => f.name == name) (q := fun f => f.name == name) hfs
    fun f g hfg => by rw [hfg.name]
  exact optionRel_getD (optionRel_map hfind fun f g hfg => hfg.type) h.same_unknown

theorem Aligned.fieldType (h : Aligned base a b) (hst : Types base a b s t) (name : String) :
    Types base a b (a.fieldType s name) (b.fieldType t name) := h.same_found (h.fields hst) name

theorem Aligned.patternFields (h : Aligned base a b) (hst : Types base a b s t) (name : String) :
    List.Forall₂ (Field.Alike (Types base a b)) (a.patternFields s name) (b.patternFields t name) := by
  unfold Arena.patternFields
  rw [h.isStruct_eq hst]
  split
  · exact h.fields hst
  · rcases optionRel_cases (h.variant? hst (lastSegment name)) with ⟨ha, hb⟩ | ⟨v, w, ha, hb, hvw⟩
    · rw [ha, hb]
      exact .nil
    · rw [ha, hb, Option.map_some, Option.map_some]
      have hshape := hvw.shape
      generalize v.shape = x at hshape ⊢
      generalize w.shape = y at hshape ⊢
      cases hshape with
      | struct hfs => exact hfs
      | _ => exact .nil

theorem Aligned.same_unknowns (h : Aligned base a b) (n : Nat) :
    List.Forall₂ (Types base a b) (List.replicate n .unknown) (List.replicate n .unknown) :=
  List.forall₂_same.2 fun _ hx => List.eq_of_mem_replicate hx ▸ h.same_unknown

theorem Aligned.elementTypes (h : Aligned base a b) (hst : Types base a b s t) (n : Nat) :
    List.Forall₂ (Types base a b) (a.elementTypes s n) (b.elementTypes t n) := by
  have hunknown := h.same_unknowns n
  have hform := alike_shift_form (h.peel hst)
  unfold Arena.elementTypes
  generalize a.form (a.peel s) = f at hform ⊢
  generalize b.form (b.peel t) = g at hform ⊢
  cases f with
  | tuple ts =>
    cases hform with
    | plain hf =>
      obtain rfl : ts = [] := hf
      dsimp only [TypeForm.shift]
      split
      · exact .nil
      · exact hunknown
    | tuple hts =>
      dsimp only
      rw [hts.length_eq]
      split
      · exact hts
      · exact hunknown
  | _ => cases hform <;> exact hunknown

/-! ### Structs, enums and variants -/

theorem Aligned.structNamed (h : Aligned base a b) (hs : scope.Agrees base scope') (name : String) :
    Option.Rel (Types base a b) (scope.structNamed a name) (scope'.structNamed b name) := by
  unfold Scope.structNamed
  split
  · exact optionRel_filter (h.selfType hs) fun _ _ => h.isStruct_eq
  · exact h.findStruct hs name

theorem Aligned.enumNamed (h : Aligned base a b) (hs : scope.Agrees base scope') (name : String) :
    Option.Rel (Types base a b) (scope.enumNamed a name) (scope'.enumNamed b name) := by
  unfold Scope.enumNamed
  split
  · exact optionRel_filter (h.selfType hs) fun _ _ => h.isEnum_eq
  · exact h.findEnum hs name

/-- The same variant of corresponding enums. -/
structure Scope.EnumVariant.Alike (R : TypeId → TypeId → Prop) (v w : Scope.EnumVariant) : Prop where
  type : R v.type w.type
  enumName : v.enumName = w.enumName
  variant : v.variant.Alike R w.variant

theorem Aligned.variantOf (h : Aligned base a b) (hs : scope.Agrees base scope') (p : Ast.Path) :
    Option.Rel (Scope.EnumVariant.Alike (Types base a b)) (scope.variantOf a p)
      (scope'.variantOf b p) := by
  unfold Scope.variantOf
  cases p.qualifier.getLast? with
  | none => exact .none
  | some owner =>
    simp only [Option.bind_eq_bind, Option.bind_some]
    refine optionRel_bind (h.enumNamed hs owner.name) fun s t hst => ?_
    refine optionRel_bind (h.variant? hst p.last.name) fun v w hvw => ?_
    exact .some ⟨hst, h.display_eq hst, hvw⟩

theorem Aligned.structOf (h : Aligned base a b) (hs : scope.Agrees base scope') (p : Ast.Path) :
    Option.Rel (Types base a b) (scope.structOf a p) (scope'.structOf b p) := by
  unfold Scope.structOf
  cases p.ident? with
  | none => exact .none
  | some name => exact h.structNamed hs name

theorem Aligned.same_patternType (h : Aligned base a b) (hs : scope.Agrees base scope')
    (p : Ast.Path) :
    Types base a b
      (match scope.variantOf a p with
        | some v => v.type
        | none => (scope.structOf a p).getD .unknown)
      (match scope'.variantOf b p with
        | some v => v.type
        | none => (scope'.structOf b p).getD .unknown) := by
  rcases optionRel_cases (h.variantOf hs p) with ⟨ha, hb⟩ | ⟨v, w, ha, hb, hvw⟩
  · rw [ha, hb]
    exact optionRel_getD (h.structOf hs p) h.same_unknown
  · rw [ha, hb]
    exact hvw.type

/-! ### Literals and paths -/

theorem agree_lowerLit (hs : scope.Agrees base scope') (hcd : Aligned base c d) (pos : Position) (lit : Lit) :
    Agree base Term.Alike (scope.lowerLit pos lit) (scope'.lowerLit pos lit) c d := by
  have hab := hcd.arena
  unfold Scope.lowerLit
  cases lit with
  | int negative n suffix =>
    dsimp only
    split
    · exact .refuse hs hcd
    · refine .pure hcd (.mk pos (.literal _) ?_)
      split
      · exact hab.same_of_lt (by decide)
      · cases hprim : TypeId.primitive? suffix with
        | none => exact hab.same_unknown
        | some t => exact hab.same_of_lt (lt_of_primitive? hprim)
  | float x suffix =>
    refine .pure hcd (.mk pos (.literal _) ?_)
    split <;> exact hab.same_of_lt (by decide)
  | bool v => exact .pure hcd (.mk pos (.literal _) (hab.same_of_lt (by decide)))
  | char v => exact .pure hcd (.mk pos (.literal _) (hab.same_of_lt (by decide)))
  | byte n => exact .pure hcd (.mk pos (.literal _) (hab.same_of_lt (by decide)))
  | str text =>
    have hstr : Types base c.arena d.arena .str .str := hab.same_of_lt (by decide)
    refine (Agree.onArena hcd (agree_intern hab rfl (.reference false hstr))).bind ?_
    intro s t c d _ hcd hst
    exact .pure hcd (.mk pos (.literal _) hst)
  | bytes => exact .refuse hs hcd

theorem alike_pathTerm (hs : scope.Agrees base scope') (hcd : Aligned base c d) (p : Ast.Path)
    (pos : Position) :
    (scope.pathTerm c p pos).Alike (Types base c d) (scope'.pathTerm d p pos) := by
  have hab := hcd.arena
  unfold Scope.pathTerm
  cases p.ident? with
  | some name =>
    dsimp only
    have hvar : Term.Alike (Types base c d) (.mk (.var (c.mention name)) (c.localType name) pos)
        (.mk (.var (d.mention name)) (d.localType name) pos) := by
      rw [hcd.mention_eq]
      exact .mk pos (.var _) (hcd.localType name)
    rcases optionRel_cases (hcd.local? name) with ⟨hc, hd⟩ | ⟨x, y, hc, hd, -⟩
    · rw [hc, hd]
      rcases optionRel_cases (hab.structNamed hs name) with ⟨hc, hd⟩ | ⟨s, t, hc, hd, hst⟩
      · rw [hc, hd]
        exact hvar
      · rw [hc, hd]
        exact .mk pos (.structLit name .nil) hst
    · rw [hc, hd]
      exact hvar
  | none =>
    dsimp only
    rcases optionRel_cases (hab.variantOf hs p) with ⟨hc, hd⟩ | ⟨v, w, hc, hd, hvw⟩
    · rw [hc, hd]
      exact .mk pos (.path _) hab.same_unknown
    · rw [hc, hd]
      dsimp only
      rw [hvw.enumName, hvw.variant.name]
      exact .mk pos (.enumLit _ _ _ .nil) hvw.type

theorem agree_lowerPath (hs : scope.Agrees base scope') (hcd : Aligned base c d) (p : Ast.Path)
    (pos : Position) : Agree base Term.Alike (scope.lowerPath p pos) (scope'.lowerPath p pos) c d := by
  unfold Scope.lowerPath
  split
  · exact .refuse hs hcd
  · exact .get (.pure hcd (alike_pathTerm hs hcd p pos))

/-! ### Binding -/

mutual

/-- **Alike patterns bind the same names to corresponding types.** -/
theorem alike_bindPattern (h : Aligned base a b) {p q : Pattern} (hpq : p.Alike (Types base a b) q)
    {s t : TypeId} (hst : Types base a b s t) {l l' : Locals} (hl : LocalsAlike (Types base a b) l l') :
    LocalsAlike (Types base a b) (l.bindPattern a p s) (l'.bindPattern b q t) := by
  cases hpq with
  | binding v =>
    exact hl.bind v hst
  | reference m hp =>
    exact alike_bindPattern h hp (h.pointee hst) hl
  | struct name rest hown hfs =>
    exact alike_bindFields h (h.patternFields hown _) hfs hl
  | tupleStruct path hps =>
    simp only [Locals.bindPattern, Locals.bindAll_eq_bindElements, hps.length_eq]
    exact alike_bindElements h hps (h.same_unknowns _) hl
  | tuple hps =>
    simp only [Locals.bindPattern, hps.length_eq]
    exact alike_bindElements h hps (h.elementTypes hst _) hl
  | alternatives hps =>
    simp only [Locals.bindPattern, Locals.bindAll_eq_bindElements, hps.length_eq]
    exact alike_bindElements h hps (h.same_unknowns _) hl
  | path | literal | range | rest | wildcard =>
    exact hl

theorem alike_bindFields (h : Aligned base a b) {declared declared' : List Field}
    (hdecl : List.Forall₂ (Field.Alike (Types base a b)) declared declared') {fs gs : List FieldPattern}
    (hfs : List.Forall₂ (FieldPattern.Alike (Types base a b)) fs gs) {l l' : Locals}
    (hl : LocalsAlike (Types base a b) l l') :
    LocalsAlike (Types base a b) (l.bindFields a declared fs) (l'.bindFields b declared' gs) := by
  cases hfs with
  | nil => exact hl
  | cons hf hfs =>
    cases hf with
    | mk name hp =>
      exact alike_bindFields h hdecl hfs (alike_bindPattern h hp (h.same_found hdecl name) hl)

theorem alike_bindElements (h : Aligned base a b) {ps qs : List Pattern}
    (hps : List.Forall₂ (Pattern.Alike (Types base a b)) ps qs) {ss ts : List TypeId}
    (hss : List.Forall₂ (Types base a b) ss ts) {l l' : Locals} (hl : LocalsAlike (Types base a b) l l') :
    LocalsAlike (Types base a b) (l.bindElements a ps ss) (l'.bindElements b qs ts) := by
  cases hps with
  | nil => exact hl
  | cons hp hps =>
    cases hss with
    | nil => exact hl
    | cons hst hss => exact alike_bindElements h hps hss (alike_bindPattern h hp hst hl)

end

theorem Aligned.bindPattern (h : Aligned base c d) {p q : Pattern} (hpq : p.Alike (Types base c d) q)
    (hst : Types base c d s t) : Aligned base (c.bindPattern p s) (d.bindPattern q t) :=
  ⟨h.linked, h.left, h.right, alike_bindPattern h.arena hpq hst h.alike⟩

theorem Agree.bindPattern (h : Aligned base c d) {p q : Pattern} (hpq : p.Alike (Types base c d) q)
    (hst : Types base c d s t) :
    Agree base (fun _ _ _ => True) (modify fun c => c.bindPattern p s : Attempt Context PUnit)
      (modify fun d => d.bindPattern q t) c d :=
  .change rfl rfl h (h.bindPattern hpq hst).alike

/-! ### Patterns -/

theorem agree_lowerBound (hs : scope.Agrees base scope') (hcd : Aligned base c d) (o : Option Ast.Bound) :
    Agree base (fun R => Option.Rel (Term.Alike R)) (scope.lowerBound o) (scope'.lowerBound o) c d := by
  unfold Scope.lowerBound
  split
  · exact .pure hcd .none
  · exact (agree_lowerLit hs hcd _ _).map fun _ _ _ => .some
  · exact (agree_lowerPath hs hcd _ _).map fun _ _ _ => .some
  · exact .refuse hs hcd

mutual

theorem agree_lowerPat (hs : scope.Agrees base scope') {c d : Context} (hcd : Aligned base c d) :
    ∀ p : Pat, Agree base Pattern.Alike (scope.lowerPat p) (scope'.lowerPat p) c d
  | .binding _ name mutable => by
    exact .pure hcd (.binding _)
  | .reference _ mutable p => by
    refine (agree_lowerPat hs hcd p).bind fun q q' c d _ hcd hq => ?_
    exact .pure hcd (.reference mutable hq)
  | .struct pos p fields rest => by
    simp only [Scope.lowerPat]
    split
    · exact .refuse hs hcd
    · have hab := hcd.arena
      have hown := hab.same_patternType hs p
      refine .get ?_
      refine (agree_lowerFieldPats hs hcd fields).bind fun fs fs' c d hmono hcd hfs => ?_
      exact .pure hcd (.struct _ rest (hmono _ _ hown) hfs)
  | .tupleStruct pos p ps => by
    simp only [Scope.lowerPat]
    split
    · exact .refuse hs hcd
    · refine (agree_lowerPats hs hcd ps).bind fun qs qs' c d _ hcd hqs => ?_
      exact .pure hcd (.tupleStruct _ hqs)
  | .path _ p => by
    exact .pure hcd (.path _)
  | .tuple _ ps => by
    refine (agree_lowerPats hs hcd ps).bind fun qs qs' c d _ hcd hqs => ?_
    exact .pure hcd (.tuple hqs)
  | .literal pos lit => by
    refine (agree_lowerLit hs hcd pos lit).bind fun v v' c d _ hcd hv => ?_
    exact .pure hcd (.literal hv)
  | .range _ start stop inclusive => by
    refine (agree_lowerBound hs hcd start).bind fun u u' c d _ hcd hu => ?_
    refine (agree_lowerBound hs hcd stop).bind fun v v' c d hmono hcd hv => ?_
    exact .pure hcd (.range inclusive (option_mono hmono hu) hv)
  | .alternatives _ ps => by
    refine (agree_lowerPats hs hcd ps).bind fun qs qs' c d _ hcd hqs => ?_
    exact .pure hcd (.alternatives hqs)
  | .rest _ => by
    exact .pure hcd .rest
  | .wild _ => by
    exact .pure hcd .wildcard
  | .paren _ p => by
    exact agree_lowerPat hs hcd p
  | .other pos what => by
    exact .refuse hs hcd

theorem agree_lowerPats (hs : scope.Agrees base scope') {c d : Context} (hcd : Aligned base c d) :
    ∀ ps : List Pat, Agree base (fun R => List.Forall₂ (Pattern.Alike R)) (scope.lowerPats ps)
      (scope'.lowerPats ps) c d
  | [] => by
    exact .pure hcd .nil
  | p :: ps => by
    refine (agree_lowerPat hs hcd p).bind fun q q' c d _ hcd hq => ?_
    refine (agree_lowerPats hs hcd ps).bind fun qs qs' c d hmono hcd hqs => ?_
    exact .pure hcd (.cons (hq.mono hmono) hqs)

theorem agree_lowerFieldPats (hs : scope.Agrees base scope') {c d : Context} (hcd : Aligned base c d) :
    ∀ fs : List FieldPat, Agree base (fun R => List.Forall₂ (FieldPattern.Alike R))
      (scope.lowerFieldPats fs) (scope'.lowerFieldPats fs) c d
  | [] => by
    exact .pure hcd .nil
  | .mk name p :: fs => by
    refine (agree_lowerPat hs hcd p).bind fun q q' c d _ hcd hq => ?_
    refine (agree_lowerFieldPats hs hcd fs).bind fun qs qs' c d hmono hcd hqs => ?_
    exact .pure hcd (.cons (.mk name (hq.mono hmono)) hqs)

end

/-! ### Values of fields -/

section Fields

variable {α : Type} {P : α → α → Prop}

theorem rel_swapRemove? {xs ys : List α} (h : List.Forall₂ P xs ys) (i : Nat) :
    Option.Rel (fun p q => P p.1 q.1 ∧ List.Forall₂ P p.2 q.2) (swapRemove? xs i)
      (swapRemove? ys i) := by
  have hdrop : List.Forall₂ P xs.dropLast ys.dropLast := by
    rw [List.dropLast_eq_take, List.dropLast_eq_take, h.length_eq]
    exact List.forall₂_take _ h
  have hlast : Option.Rel P xs.getLast? ys.getLast? := by
    rw [List.getLast?_eq_getElem?, List.getLast?_eq_getElem?, h.length_eq]
    exact forall₂_getElem? h _
  refine optionRel_bind (forall₂_getElem? h i) fun x y hxy => optionRel_bind hlast fun u v huv => ?_
  rw [h.length_eq]
  refine .some ⟨hxy, ?_⟩
  dsimp only
  split
  · exact hdrop
  · exact forall₂_set hdrop i huv

theorem alike_packFields (owner : String) (names : List String) {xs ys : List (String × α)}
    (h : List.Forall₂ (fun p q => p.1 = q.1 ∧ P p.2 q.2) xs ys) :
    SameOutcome (List.Forall₂ P) (packFields owner names xs) (packFields owner names ys) := by
  induction names generalizing xs ys with
  | nil =>
    cases h with
    | nil => exact .ok .nil
    | @cons p q xs ys hpq =>
      obtain ⟨n, x⟩ := p
      obtain ⟨n', y⟩ := q
      obtain ⟨rfl : n = n', -⟩ := hpq
      exact .error _
  | cons name names ih =>
    have hnames : xs.map Prod.fst = ys.map Prod.fst := by
      induction h with
      | nil => rfl
      | cons hpq _ ih => rw [List.map_cons, List.map_cons, hpq.1, ih]
    have hidx : xs.findIdx? (fun f => f.1 == name) = ys.findIdx? fun f => f.1 == name := by
      have hmap : ∀ zs : List (String × α), zs.findIdx? (fun f => f.1 == name) =
          (zs.map Prod.fst).findIdx? (· == name) := fun zs => by rw [List.findIdx?_map]; rfl
      rw [hmap, hmap, hnames]
    simp only [packFields, takeField?, hidx]
    cases ys.findIdx? fun f => f.1 == name with
    | none => exact .error _
    | some i =>
      dsimp only [Option.bind_eq_bind, Option.bind_some]
      rcases optionRel_cases (rel_swapRemove? h i) with ⟨hx, hy⟩ | ⟨x, y, hx, hy, hxy, hrest⟩
      · rw [hx, hy]
        exact .error _
      · rw [hx, hy]
        exact (ih hrest).bind fun vs ws hvs => .ok (.cons hxy.2 hvs)

end Fields

/-! ### Types of expressions -/

variable {l l' r r' : Term}

theorem alike_binary (h : Aligned base a b) (op : BinaryOp) (hl : l.Alike (Types base a b) l')
    (hr : r.Alike (Types base a b) r') (pos : Position) :
    (Term.binary op l r pos).Alike (Types base a b) (Term.binary op l' r' pos) := by
  refine .mk pos (.binary op hl hr) ?_
  have heq := h.eq_iff hl.type hr.type
  split
  · exact h.same_of_lt (by decide)
  · by_cases hsame : l.type = r.type
    · rw [if_pos hsame, if_pos (heq.1 hsame)]
      exact hl.type
    · rw [if_neg hsame, if_neg fun h => hsame (heq.2 h)]
      exact h.same_unknown

theorem same_commonType (h : Aligned base a b) {ts us : List Term}
    (hts : List.Forall₂ (Term.Alike (Types base a b)) ts us) :
    Types base a b (Term.commonType ts) (Term.commonType us) := by
  cases hts with
  | nil => exact h.same_unknown
  | @cons t u ts us htu hts =>
    have hall : (ts.all fun x => x.type == t.type) = us.all fun x => x.type == u.type := by
      induction hts with
      | nil => rfl
      | @cons x y _ _ hxy _ ih =>
        have heq : (x.type == t.type) = (y.type == u.type) := by
          rw [Bool.eq_iff_iff, beq_iff_eq, beq_iff_eq]
          exact h.eq_iff hxy.type htu.type
        rw [List.all_cons, List.all_cons, ih, heq]
    simp only [Term.commonType, hall]
    split
    · exact htu.type
    · exact h.same_unknown

theorem same_indexedType (h : Aligned base a b) (hst : Types base a b s t) :
    Types base a b (Scope.indexedType a s) (Scope.indexedType b t) := by
  have hform := alike_shift_form (h.peel hst)
  unfold Scope.indexedType
  generalize a.form (a.peel s) = f at hform ⊢
  generalize b.form (b.peel t) = g at hform ⊢
  cases f with
  | array e n =>
    cases hform with
    | plain hf => cases hf
    | array _ he => exact he
  | _ => cases hform <;> exact h.same_unknown

theorem same_positionType (h : Aligned base a b) (hst : Types base a b s t) (i : Nat) :
    Types base a b (Scope.positionType a s i) (Scope.positionType b t i) := by
  have hpeel := h.peel hst
  have hform := alike_shift_form hpeel
  have hfield := h.fieldType hpeel (toString i)
  unfold Scope.positionType
  dsimp only
  generalize a.form (a.peel s) = f at hform ⊢
  generalize b.form (b.peel t) = g at hform ⊢
  cases f with
  | tuple ts =>
    cases hform with
    | plain hf =>
      obtain rfl : ts = [] := hf
      exact h.same_unknown
    | tuple hts => exact optionRel_getD (forall₂_getElem? hts i) h.same_unknown
  | _ => cases hform <;> exact hfield

theorem same_unaryType (h : Aligned base a b) (op : UnaryOp) (hst : Types base a b s t) :
    Types base a b (Scope.unaryType a op s) (Scope.unaryType b op t) := by
  cases op with
  | deref => exact h.pointee hst
  | neg => exact hst
  | not => exact hst

theorem alike_applied (h : Aligned base a b) (hs : scope.Agrees base scope') (p : Ast.Path)
    {args args' : List Term} (hargs : List.Forall₂ (Term.Alike (Types base a b)) args args')
    (pos : Position) :
    (scope.applied a p args pos).Alike (Types base a b) (scope'.applied b p args' pos) := by
  unfold Scope.applied
  rcases optionRel_cases (h.variantOf hs p) with ⟨ha, hb⟩ | ⟨v, w, ha, hb, hvw⟩
  · rw [ha, hb]
    have hcall : Term.Alike (Types base a b)
        (.mk (.call p.last.name p.qualifierText? false args) .unknown pos)
        (.mk (.call p.last.name p.qualifierText? false args') .unknown pos) :=
      .mk pos (.call _ _ _ hargs) h.same_unknown
    cases p.ident? with
    | none => exact hcall
    | some name =>
      rcases optionRel_cases (h.structOf hs p) with ⟨ha, hb⟩ | ⟨s, t, ha, hb, hst⟩
      · rw [ha, hb]
        exact hcall
      · rw [ha, hb]
        exact .mk pos (.structLit _ hargs) hst
  · rw [ha, hb]
    dsimp only
    rw [hvw.enumName, hvw.variant.name]
    exact .mk pos (.enumLit _ _ _ hargs) hvw.type

theorem typeText_eq (h : Aligned base a b) (written : TypeAnn) (hst : Types base a b s t) :
    Scope.typeText a written s = Scope.typeText b written t := by
  have heq := h.eq_iff hst h.same_unknown
  unfold Scope.typeText
  rw [h.display_eq hst]
  by_cases hs : s = .unknown
  · rw [if_pos hs, if_pos (heq.1 hs)]
  · rw [if_neg hs, if_neg fun ht => hs (heq.2 ht)]

theorem alike_pack (owner : String) (place : Location) {fs gs : List Field}
    (hfs : List.Forall₂ (Field.Alike R) fs gs) {xs ys : List (String × Term)}
    (hxs : List.Forall₂ (fun p q => p.1 = q.1 ∧ p.2.Alike R q.2) xs ys) :
    SameOutcome (List.Forall₂ (Term.Alike R))
      ((packFields owner (fs.map Field.name) xs).mapError (Error.unsupported · place))
      ((packFields owner (gs.map Field.name) ys).mapError (Error.unsupported · place)) := by
  have hnames : fs.map Field.name = gs.map Field.name := by
    induction hfs with
    | nil => rfl
    | cons hfg _ ih => rw [List.map_cons, List.map_cons, hfg.name, ih]
  rw [hnames]
  have hpacked := alike_packFields owner (gs.map Field.name) hxs
  generalize packFields owner (gs.map Field.name) xs = o at hpacked ⊢
  generalize packFields owner (gs.map Field.name) ys = o' at hpacked ⊢
  cases hpacked with
  | ok hvs => exact .ok hvs
  | error e => exact .error _

theorem alike_structTerm (h : Aligned base a b) (hs : scope.Agrees base scope') (p : Ast.Path)
    {xs ys : List (String × Term)}
    (hxs : List.Forall₂ (fun p q => p.1 = q.1 ∧ p.2.Alike (Types base a b) q.2) xs ys)
    (pos : Position) :
    SameOutcome (Term.Alike (Types base a b)) (scope.structTerm a p xs pos)
      (scope'.structTerm b p ys pos) := by
  unfold Scope.structTerm
  rw [hs.locate_eq, hs.strict]
  rcases optionRel_cases (h.variantOf hs p) with ⟨ha, hb⟩ | ⟨v, w, ha, hb, hvw⟩
  · rw [ha, hb]
    rcases optionRel_cases (h.structOf hs p) with ⟨ha, hb⟩ | ⟨s, t, ha, hb, hst⟩
    · rw [ha, hb]
      dsimp only
      split
      · exact .error _
      · refine .ok (.mk pos (.structLit _ ?_) h.same_unknown)
        rw [List.forall₂_map_left_iff, List.forall₂_map_right_iff]
        exact hxs.imp fun _ _ h => h.2
    · rw [ha, hb]
      dsimp only
      rw [h.display_eq hst]
      exact (alike_pack _ _ (h.fields hst) hxs).bind fun vs ws hvs =>
        .ok (.mk pos (.structLit _ hvs) hst)
  · rw [ha, hb]
    dsimp only
    rw [hvw.enumName, hvw.variant.name]
    have hshape := hvw.variant.shape
    generalize v.variant.shape = x at hshape ⊢
    generalize w.variant.shape = y at hshape ⊢
    cases hshape with
    | struct hfs =>
      exact (alike_pack _ _ hfs hxs).bind fun vs ws hvs => .ok (.mk pos (.enumLit _ _ _ hvs) hvw.type)
    | _ => exact .error _

/-! ### Expressions -/

mutual

/-- **An expression is lowered to alike terms or refused in the same way.** -/
theorem agree_lowerExpr (hs : scope.Agrees base scope') {c d : Context} (hcd : Aligned base c d) :
    ∀ e : Expr, Agree base Term.Alike (scope.lowerExpr e) (scope'.lowerExpr e) c d
  | .literal pos lit => by
    exact agree_lowerLit hs hcd pos lit
  | .path pos p => by
    exact agree_lowerPath hs hcd p pos
  | .binary pos op l r => by
    refine (agree_lowerExpr hs hcd l).bind fun u u' c d _ hcd hu => ?_
    refine (agree_lowerExpr hs hcd r).bind fun v v' c d hmono hcd hv => ?_
    exact .pure hcd (alike_binary hcd.arena op (hu.mono hmono) hv pos)
  | .compound pos op l r => by
    refine (agree_lowerExpr hs hcd l).bind fun u u' c d _ hcd hu => ?_
    refine (agree_lowerExpr hs hcd r).bind fun v v' c d hmono hcd hv => ?_
    have hu := hu.mono hmono
    exact .pure hcd (.mk pos (.assign hu (alike_binary hcd.arena op hu hv pos)) hcd.arena.same_unit)
  | .unary pos op e => by
    refine (agree_lowerExpr hs hcd e).bind fun u u' c d _ hcd hu => ?_
    exact .get (.pure hcd (.mk pos (.unary op hu) (same_unaryType hcd.arena op hu.type)))
  | .borrow pos mutable e => by
    refine (agree_lowerExpr hs hcd e).bind fun u u' c d _ hcd hu => ?_
    have hform : (TypeForm.reference u.type mutable).Alike (Types base c d) (.reference u'.type mutable) :=
      .reference mutable hu.type
    refine (Agree.onArena hcd (agree_intern hcd.arena rfl hform)).bind fun s t c d hmono hcd hst => ?_
    exact .pure hcd (.mk pos (.borrow mutable (hu.mono hmono)) hst)
  | .cast pos e target => by
    refine (agree_lowerExpr hs hcd e).bind fun u u' c d _ hcd hu => ?_
    refine (Agree.onArena hcd (agree_resolve hs hcd.arena target.type)).bind
      fun s t c d hmono hcd hst => ?_
    refine .get ?_
    rw [typeText_eq hcd.arena target hst]
    exact .pure hcd (.mk pos (.cast _ (hu.mono hmono)) hst)
  | .range pos start stop inclusive => by
    refine (agree_lowerOption hs hcd start).bind fun u u' c d _ hcd hu => ?_
    refine (agree_lowerOption hs hcd stop).bind fun v v' c d hmono hcd hv => ?_
    exact .pure hcd (.mk pos (.range inclusive (option_mono hmono hu) hv) hcd.arena.same_unknown)
  | .assign pos l r => by
    refine (agree_lowerExpr hs hcd l).bind fun u u' c d _ hcd hu => ?_
    refine (agree_lowerExpr hs hcd r).bind fun v v' c d hmono hcd hv => ?_
    exact .pure hcd (.mk pos (.assign (hu.mono hmono) hv) hcd.arena.same_unit)
  | .test pos p e => by
    refine (agree_lowerExpr hs hcd e).bind fun u u' c d _ hcd hu => ?_
    refine (agree_lowerPat hs hcd p).bind fun q q' c d hmono hcd hq => ?_
    have hu := hu.mono hmono
    refine (Agree.bindPattern hcd hq hu.type).bind fun _ _ c d hmono hcd _ => ?_
    exact .pure hcd (.mk pos (.test (hq.mono hmono) (hu.mono hmono))
      (hcd.arena.same_of_lt (by decide)))
  | .index pos l r => by
    refine (agree_lowerExpr hs hcd l).bind fun u u' c d _ hcd hu => ?_
    refine (agree_lowerExpr hs hcd r).bind fun v v' c d hmono hcd hv => ?_
    have hu := hu.mono hmono
    exact .get (.pure hcd (.mk pos (.index hu hv) (same_indexedType hcd.arena hu.type)))
  | .tupleField pos e i => by
    refine (agree_lowerExpr hs hcd e).bind fun u u' c d _ hcd hu => ?_
    exact .get (.pure hcd (.mk pos (.tupleField i hu) (same_positionType hcd.arena hu.type i)))
  | .field pos e name => by
    refine (agree_lowerExpr hs hcd e).bind fun u u' c d _ hcd hu => ?_
    have hpeel := hcd.arena.peel hu.type
    exact .get (.pure hcd (.mk pos (.field name hu) (hcd.arena.fieldType hpeel name)))
  | .methodCall pos receiver method args => by
    refine (agree_lowerExpr hs hcd receiver).bind fun u u' c d _ hcd hu => ?_
    refine (agree_lowerAll hs hcd args).bind fun vs vs' c d hmono hcd hvs => ?_
    exact .pure hcd (.mk pos (.call _ _ _ (.cons (hu.mono hmono) hvs)) hcd.arena.same_unknown)
  | .call pos callee args => by
    cases callee with
    | path _ p =>
      simp only [Scope.lowerExpr]
      split
      · exact .refuse hs hcd
      · refine (agree_lowerAll hs hcd args).bind fun vs vs' c d _ hcd hvs => ?_
        exact .get (.pure hcd (alike_applied hcd.arena hs p hvs pos))
    | _ =>
      exact .refuse hs hcd
  | .structLit pos p fields rest => by
    simp only [Scope.lowerExpr]
    split
    · exact .refuse hs hcd
    · split
      · exact .refuse hs hcd
      · refine (agree_lowerInits hs hcd fields).bind fun vs vs' c d _ hcd hvs => ?_
        refine .get ?_
        have hterm := alike_structTerm hcd.arena hs p hvs pos
        generalize scope.structTerm c.arena p vs pos = o at hterm ⊢
        generalize scope'.structTerm d.arena p vs' pos = o' at hterm ⊢
        cases hterm with
        | ok h => exact .pure hcd h
        | error e => exact .throw hcd
  | .tuple pos es => by
    simp only [Scope.lowerExpr]
    split
    · exact .pure hcd (.mk pos (.literal _) hcd.arena.same_unit)
    · refine (agree_lowerAll hs hcd es).bind fun vs vs' c d _ hcd hvs => ?_
      have htypes : List.Forall₂ (Types base c d) (vs.map Term.type) (vs'.map Term.type) := by
        rw [List.forall₂_map_left_iff, List.forall₂_map_right_iff]
        exact hvs.imp fun _ _ h => h.type
      refine (Agree.onArena hcd (agree_tuple hcd.arena htypes)).bind fun s t c d hmono hcd hst => ?_
      exact .pure hcd (.mk pos (.tuple (terms_mono hmono hvs)) hst)
  | .array pos es => by
    refine (agree_lowerAll hs hcd es).bind fun vs vs' c d _ hcd hvs => ?_
    rw [← hvs.length_eq]
    have hform : (TypeForm.array (Term.commonType vs) vs.length).Alike (Types base c d)
        (.array (Term.commonType vs') vs.length) := .array _ (same_commonType hcd.arena hvs)
    refine (Agree.onArena hcd (agree_intern hcd.arena rfl hform)).bind fun s t c d hmono hcd hst => ?_
    exact .pure hcd (.mk pos (.array (terms_mono hmono hvs)) hst)
  | .arrayRepeat pos e length => by
    cases length with
    | none =>
      exact .refuse hs hcd
    | some n =>
      refine (agree_lowerExpr hs hcd e).bind fun u u' c d _ hcd hu => ?_
      have hform : (TypeForm.array u.type n).Alike (Types base c d) (.array u'.type n) := .array n hu.type
      refine (Agree.onArena hcd (agree_intern hcd.arena rfl hform)).bind
        fun s t c d hmono hcd hst => ?_
      exact .pure hcd (.mk pos (.arrayRepeat n (hu.mono hmono)) hst)
  | .paren _ e => by
    exact agree_lowerExpr hs hcd e
  | .macroCall pos p tokens _ => by
    exact .pure hcd (.mk pos (.macroCall _ _) hcd.arena.same_unknown)
  | .block .. | .unsafeBlock .. | .branch .. | .matchOn .. | .whileLoop .. | .loop .. | .forLoop ..
  | .ret .. | .leave .. | .next .. | .other .. | .verbatim .. => by
    exact .refuse hs hcd

theorem agree_lowerOption (hs : scope.Agrees base scope') {c d : Context} (hcd : Aligned base c d) :
    ∀ o : Option Expr, Agree base (fun R => Option.Rel (Term.Alike R)) (scope.lowerOption o)
      (scope'.lowerOption o) c d
  | none => by
    exact .pure hcd .none
  | some e => by
    exact (agree_lowerExpr hs hcd e).map fun _ _ _ => .some

theorem agree_lowerAll (hs : scope.Agrees base scope') {c d : Context} (hcd : Aligned base c d) :
    ∀ es : List Expr, Agree base (fun R => List.Forall₂ (Term.Alike R)) (scope.lowerAll es)
      (scope'.lowerAll es) c d
  | [] => by
    exact .pure hcd .nil
  | e :: es => by
    refine (agree_lowerExpr hs hcd e).bind fun u u' c d _ hcd hu => ?_
    refine (agree_lowerAll hs hcd es).bind fun vs vs' c d hmono hcd hvs => ?_
    exact .pure hcd (.cons (hu.mono hmono) hvs)

theorem agree_lowerInits (hs : scope.Agrees base scope') {c d : Context} (hcd : Aligned base c d) :
    ∀ fs : List FieldInit,
      Agree base (fun R => List.Forall₂ fun p q => p.1 = q.1 ∧ p.2.Alike R q.2)
        (scope.lowerInits fs) (scope'.lowerInits fs) c d
  | [] => by
    exact .pure hcd .nil
  | .mk name e :: fs => by
    refine (agree_lowerExpr hs hcd e).bind fun u u' c d _ hcd hu => ?_
    refine (agree_lowerInits hs hcd fs).bind fun vs vs' c d hmono hcd hvs => ?_
    exact .pure hcd (.cons ⟨rfl, hu.mono hmono⟩ hvs)

end

end RustFlow
