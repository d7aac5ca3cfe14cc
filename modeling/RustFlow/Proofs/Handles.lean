/-
# Handles of types are canonical

An arena is only ever changed by the operations listed in `Op`.  An arena is
*reached* if it comes from the empty one by operations whose handles are live when
they are given; a handle that was issued since the last reset is.  All that such
operations do to the forms of an arena is to intern forms over live parts, or to
start afresh, so the forms stay ordered and distinct (`Reached.canonical`).

The *tree* of a handle unfolds it to its structure, with structs and enums as
leaves.  Forms are distinct over handles; that trees are distinct too takes an
induction along the order of the arena (`Canonical.eq_of_tree`).
-/

import RustFlow.Proofs.Agreement

namespace RustFlow

namespace Arena

variable {a b c : Arena} {f g : TypeForm} {s t : TypeId}

/-! ### Operations -/

/-- A call that may change an arena or hand out a handle. -/
inductive Op where
  | primitive (name : String)
  | intern (form : TypeForm)
  | pointer (target : TypeId) (mutable : Bool)
  | reference (target : TypeId) (mutable : Bool)
  | array (element : TypeId) (length : Nat)
  | tuple (elements : List TypeId)
  | declareStruct (name : String) (owner : UnitId)
  | declareEnum (name : String) (owner : UnitId)
  | defineStruct (t : TypeId) (fields : List Field)
  | defineEnum (t : TypeId) (names : List String) (shapes : List VariantShape)
  | resolve (scope : Scope) (type : Ast.TypeExpr)
  | resolveResult (scope : Scope) (result : Option Ast.TypeAnn)
  | reset

namespace Op

/-- The handles that a call is given. -/
def handles : Op → List TypeId
  | intern f => f.parts
  | pointer t _ => [t]
  | reference t _ => [t]
  | array t _ => [t]
  | tuple ts => ts
  | defineStruct t fields => t :: fields.map Field.type
  | defineEnum t _ shapes => t :: shapes.flatMap VariantShape.types
  | resolve scope _ => scope.selfType.toList
  | resolveResult scope _ => scope.selfType.toList
  | primitive _ | declareStruct _ _ | declareEnum _ _ | reset => []

/-- The arena after a call, whether or not the call succeeds. -/
def run : Op → Arena → Arena
  | primitive _, a => a
  | intern f, a => (a.intern f).2
  | pointer t mutable, a => (a.pointer t mutable).2
  | reference t mutable, a => (a.reference t mutable).2
  | array t length, a => (a.array t length).2
  | tuple ts, a => (a.tuple ts).2
  | declareStruct name owner, a => (a.declareStruct name owner).2
  | declareEnum name owner, a => (a.declareEnum name owner).2
  | defineStruct t fields, a => a.defineStruct t fields
  | defineEnum t names shapes, a => (a.defineEnum t names shapes).toOption.getD a
  | resolve scope type, a => (scope.resolve type a).2
  | resolveResult scope result, a => (scope.resolveResult result a).2
  | reset, a => a.reset

end Op

/-- An arena that comes from the empty one by calls on live handles. -/
inductive Reached : Arena → Prop where
  | empty : Reached empty
  | step {a : Arena} (op : Op) : Reached a → (∀ t ∈ op.handles, a.Live t) → Reached (op.run a)

instance (t : TypeId) : Decidable (a.Live t) := inferInstanceAs (Decidable (t.index < a.size))

/-- The arena after a list of calls, if each of them is given live handles. -/
def runAll : List Op → Arena → Option Arena
  | [], a => some a
  | op :: ops, a => if ∀ t ∈ op.handles, a.Live t then runAll ops (op.run a) else none

theorem Reached.runAll {ops : List Op} (ha : Reached a) (h : runAll ops a = some b) : Reached b := by
  induction ops generalizing a with
  | nil =>
    cases h
    exact ha
  | cons op ops ih =>
    obtain ⟨hlive, hrest⟩ := Option.ite_none_right_eq_some.1 h
    exact ih (.step op ha hlive) hrest

/-! ### What operations do to forms -/

/-- An arena that comes from another by interning forms over live parts. -/
inductive Interns (a : Arena) : Arena → Prop where
  | refl : Interns a a
  | step {b : Arena} {f : TypeForm} : Interns a b → (∀ t ∈ f.parts, b.Live t) →
      Interns a (b.intern f).2

theorem interns_intern (h : ∀ t ∈ f.parts, a.Live t) : Interns a (a.intern f).2 := .step .refl h

theorem Interns.trans (hab : Interns a b) (hbc : Interns b c) : Interns a c := by
  induction hbc with
  | refl => exact hab
  | step _ hparts ih => exact .step ih hparts

theorem Interns.forms (h : Interns a b) : a.forms <+: b.forms := by
  induction h with
  | refl => exact List.prefix_refl _
  | step _ _ ih => exact ih.trans (prefix_intern ..)

theorem Interns.layouts (h : Interns a b) : b.layouts = a.layouts := by
  induction h with
  | refl => rfl
  | step _ _ ih => exact (layouts_intern ..).trans ih

theorem Interns.ordered (h : Interns a b) (ha : a.Ordered) : b.Ordered := by
  induction h with
  | refl => exact ha
  | step _ hparts ih => exact ih.intern hparts

theorem Interns.canonical (h : Interns a b) (ha : a.Canonical) : b.Canonical := by
  induction h with
  | refl => exact ha
  | step _ hparts ih => exact ih.intern hparts

/-- A run that interns forms, and what holds of its result. -/
structure RunInterns {α : Type} (m : Attempt Arena α) (a : Arena) (V : Arena → α → Prop) :
    Prop where
  interns : Interns a (m a).2
  result : ∀ v, (m a).1 = .ok v → V (m a).2 v

namespace RunInterns

variable {α β : Type} {m : Attempt Arena α} {V : Arena → α → Prop} {W : Arena → β → Prop}

theorem pure {v : α} (h : V a v) : RunInterns (Pure.pure v) a V :=
  ⟨.refl, fun _ hw => by cases hw; exact h⟩

theorem throw (e : Error) : RunInterns (MonadExcept.throw e) a V := ⟨.refl, fun _ hv => by cases hv⟩

theorem bind {next : α → Attempt Arena β} (h : RunInterns m a V)
    (hnext : ∀ v b, Interns a b → V b v → RunInterns (next v) b W) :
    RunInterns (m >>= next) a W := by
  obtain ⟨hm, hv⟩ := h
  have hrun := Attempt.bind_run m next a
  generalize m a = r at hm hv hrun
  obtain ⟨out, b⟩ := r
  cases out with
  | error e => exact ⟨hrun ▸ hm, fun v hv => by rw [hrun] at hv; cases hv⟩
  | ok v =>
    obtain ⟨hb, hw⟩ := hnext v b hm (hv v rfl)
    exact ⟨hrun ▸ hm.trans hb, fun w h => by rw [hrun] at h ⊢; exact hw w h⟩

theorem get {next : Arena → Attempt Arena β} (h : RunInterns (next a) a W) :
    RunInterns (MonadState.get >>= next) a W := by
  have hrun : (MonadState.get >>= next) a = next a a := Attempt.bind_run ..
  exact ⟨hrun ▸ h.interns, fun w hw => by rw [hrun] at hw ⊢; exact h.result w hw⟩

theorem intern (h : ∀ t ∈ f.parts, a.Live t) : RunInterns (modifyGet fun a => a.intern f) a Live :=
  ⟨interns_intern h, fun t ht => by cases ht; exact live_of_forms (forms_intern a f)⟩

end RunInterns

theorem Ordered.live_of_lt (ha : a.Ordered) {i : Nat} (hi : i < TypeForm.primitives.length) :
    a.Live ⟨i⟩ := Nat.lt_of_lt_of_le hi ha.primitives.length_le

theorem Ordered.live_unknown (ha : a.Ordered) : a.Live .unknown := ha.live_of_lt (by decide)

theorem RunInterns.tuple (ha : a.Ordered) {ts : List TypeId} (h : ∀ t ∈ ts, a.Live t) :
    RunInterns (modifyGet fun a => a.tuple ts) a Live := by
  cases ts with
  | nil => exact .pure (ha.live_of_lt (by decide))
  | cons t ts => exact .intern h

theorem live_of_findNamed {name : String} {owner : UnitId} (h : a.findNamed name owner = some t) :
    a.Live t := by
  rcases Option.or_eq_some_iff.1 h with hs | ⟨-, he⟩
  · exact live_of_forms (lookup_eq_some hs)
  · exact live_of_forms (lookup_eq_some he)

variable {scope : Scope}

theorem runInterns_resolvePath (hs : scope.Within a) (ha : a.Ordered) (p : Ast.Path) :
    RunInterns (scope.resolvePath p) a Live := by
  refine .get ?_
  dsimp only
  split
  · rename_i t ht
    split at ht
    · exact .pure (ha.live_of_lt (lt_of_primitive? ht))
    · cases ht
  · split
    · refine .pure ?_
      cases hself : scope.selfType with
      | none => exact ha.live_unknown
      | some t => exact hs t hself
    · split
      · exact .pure ha.live_unknown
      · split
        · rename_i t ht
          exact .pure (live_of_findNamed ht)
        · split
          · exact .throw _
          · exact .pure ha.live_unknown

mutual

/-- **Resolution only interns forms over live types**, and gives a live type. -/
theorem runInterns_resolve {a : Arena} (hs : scope.Within a) (ha : a.Ordered) :
    ∀ t : Ast.TypeExpr, RunInterns (scope.resolve t) a Live
  | .paren t => by
    exact runInterns_resolve hs ha t
  | .tuple ts => by
    refine (runInterns_resolveAll hs ha ts).bind fun es b hb hes => ?_
    exact .tuple (hb.ordered ha) hes
  | .array t length => by
    refine (runInterns_resolve hs ha t).bind fun e b hb he => ?_
    cases length with
    | some n => exact .intern (List.forall_mem_singleton.2 he)
    | none => exact .pure (hb.ordered ha).live_unknown
  | .pointer mutable t => by
    exact (runInterns_resolve hs ha t).bind fun e b _ he => .intern (List.forall_mem_singleton.2 he)
  | .reference mutable t => by
    exact (runInterns_resolve hs ha t).bind fun e b _ he => .intern (List.forall_mem_singleton.2 he)
  | .path p => by
    simp only [Scope.resolve]
    split
    · exact .pure ha.live_unknown
    · exact runInterns_resolvePath hs ha p
  | .bareBound _ => by
    exact .pure ha.live_unknown
  | .other => by
    exact .pure ha.live_unknown

theorem runInterns_resolveAll {a : Arena} (hs : scope.Within a) (ha : a.Ordered) :
    ∀ ts : List Ast.TypeExpr, RunInterns (scope.resolveAll ts) a fun b es => ∀ t ∈ es, b.Live t
  | [] => by
    exact .pure fun t ht => by cases ht
  | t :: ts => by
    refine (runInterns_resolve hs ha t).bind fun e b hb he => ?_
    have hs' : scope.Within b := fun self hself => (hs self hself).mono hb.forms
    refine (runInterns_resolveAll hs' (hb.ordered ha) ts).bind fun es c hc hes => ?_
    exact .pure (List.forall_mem_cons.2 ⟨he.mono hc.forms, hes⟩)

end

theorem runInterns_resolveResult (hs : scope.Within a) (ha : a.Ordered)
    (result : Option Ast.TypeAnn) : RunInterns (scope.resolveResult result) a Live := by
  cases result with
  | none => exact .pure (ha.live_of_lt (by decide))
  | some type => exact runInterns_resolve hs ha type.type

/-- **The step of a history.**  A call starts afresh, interns forms over live types, or
changes layouts alone. -/
theorem Op.run_cases (op : Op) (ha : a.Canonical) (hlive : ∀ t ∈ op.handles, a.Live t) :
    op.run a = .empty ∨ ∃ b, Interns a b ∧ (op.run a).forms = b.forms := by
  have hinterns {f : TypeForm} (hf : ∀ t ∈ f.parts, a.Live t) :
      ∃ b, Interns a b ∧ (a.intern f).2.forms = b.forms := ⟨_, interns_intern hf, rfl⟩
  have hsame : ∃ b, Interns a b ∧ a.forms = b.forms := ⟨a, .refl, rfl⟩
  have hwithin {scope : Scope} (h : ∀ t ∈ scope.selfType.toList, a.Live t) : scope.Within a :=
    fun t ht => h t (by rw [ht]; exact List.mem_singleton.2 rfl)
  cases op with
  | reset => exact .inl rfl
  | primitive => exact .inr hsame
  | intern f => exact .inr (hinterns hlive)
  | pointer t m => exact .inr (hinterns (f := .pointer t m) hlive)
  | reference t m => exact .inr (hinterns (f := .reference t m) hlive)
  | array t n => exact .inr (hinterns (f := .array t n) hlive)
  | tuple ts => exact .inr ⟨_, (RunInterns.tuple ha.toOrdered hlive).interns, rfl⟩
  | declareStruct name owner =>
    exact .inr (hinterns (f := .struct name owner) fun t ht => by cases ht)
  | declareEnum name owner =>
    exact .inr (hinterns (f := .enum name owner) fun t ht => by cases ht)
  | defineStruct => exact .inr hsame
  | defineEnum t names shapes =>
    refine .inr ⟨a, .refl, ?_⟩
    simp only [Op.run, Arena.defineEnum]
    split <;> rfl
  | resolve scope type =>
    exact .inr ⟨_, (runInterns_resolve (hwithin hlive) ha.toOrdered type).interns, rfl⟩
  | resolveResult scope result =>
    exact .inr ⟨_, (runInterns_resolveResult (hwithin hlive) ha.toOrdered result).interns, rfl⟩

/-- **Every reached arena is canonical**, by induction over its history. -/
theorem Reached.canonical (h : Reached a) : a.Canonical := by
  induction h with
  | empty => exact sound_empty.toCanonical
  | step op _ hlive ih =>
    rcases op.run_cases ih hlive with hreset | ⟨b, hb, hforms⟩
    · exact hreset ▸ sound_empty.toCanonical
    · exact (hb.canonical ih).of_forms hforms

end Arena

/-! ### Trees -/

/-- A type unfolded to its structure. -/
inductive TypeTree where
  | unknown
  | unit
  | bool
  | char
  | str
  | int (width : IntWidth)
  | uint (width : IntWidth)
  | float (width : FloatWidth)
  | pointer (target : TypeTree) (mutable : Bool)
  | reference (target : TypeTree) (mutable : Bool)
  | array (element : TypeTree) (length : Nat)
  | tuple (elements : List TypeTree)
  | struct (name : String) (owner : UnitId)
  | enum (name : String) (owner : UnitId)

namespace TypeForm

variable {f g : TypeForm} {sub sub' : TypeId → TypeTree}

/-- The tree of a form over the trees of its parts. -/
def tree (sub : TypeId → TypeTree) : TypeForm → TypeTree
  | unknown => .unknown
  | unit => .unit
  | bool => .bool
  | char => .char
  | str => .str
  | int w => .int w
  | uint w => .uint w
  | float w => .float w
  | pointer t mutable => .pointer (sub t) mutable
  | reference t mutable => .reference (sub t) mutable
  | array t length => .array (sub t) length
  | tuple ts => .tuple (ts.map sub)
  | struct name owner => .struct name owner
  | enum name owner => .enum name owner

theorem tree_congr (h : ∀ t ∈ f.parts, sub t = sub' t) : f.tree sub = f.tree sub' := by
  cases f with
  | pointer t m => exact congrArg (TypeTree.pointer · m) (h t (List.mem_singleton.2 rfl))
  | reference t m => exact congrArg (TypeTree.reference · m) (h t (List.mem_singleton.2 rfl))
  | array t n => exact congrArg (TypeTree.array · n) (h t (List.mem_singleton.2 rfl))
  | tuple ts => exact congrArg TypeTree.tuple (List.map_congr_left h)
  | _ => rfl

/-- If parts with one tree are one part, forms with one tree are one form. -/
theorem eq_of_tree (hsub : ∀ s ∈ f.parts, ∀ t ∈ g.parts, sub s = sub t → s = t)
    (h : f.tree sub = g.tree sub) : f = g := by
  have hlist : ∀ ss ts : List TypeId, (∀ s ∈ ss, ∀ t ∈ ts, sub s = sub t → s = t) →
      ss.map sub = ts.map sub → ss = ts := by
    intro ss
    induction ss with
    | nil =>
      intro ts _ hmap
      exact (List.map_eq_nil_iff.1 hmap.symm).symm
    | cons s ss ih =>
      intro ts hinj hmap
      cases ts with
      | nil => cases hmap
      | cons t ts =>
        obtain ⟨hhead, htail⟩ := List.cons_eq_cons.1 hmap
        rw [hinj s List.mem_cons_self t List.mem_cons_self hhead,
          ih ts (fun x hx y hy => hinj x (List.mem_cons_of_mem _ hx) y (List.mem_cons_of_mem _ hy))
            htail]
  cases f with
  | pointer s m =>
    cases g with
    | pointer t m' =>
      obtain ⟨hst, rfl⟩ := TypeTree.pointer.inj h
      rw [hsub s (List.mem_singleton.2 rfl) t (List.mem_singleton.2 rfl) hst]
    | _ => cases h
  | reference s m =>
    cases g with
    | reference t m' =>
      obtain ⟨hst, rfl⟩ := TypeTree.reference.inj h
      rw [hsub s (List.mem_singleton.2 rfl) t (List.mem_singleton.2 rfl) hst]
    | _ => cases h
  | array s n =>
    cases g with
    | array t n' =>
      obtain ⟨hst, rfl⟩ := TypeTree.array.inj h
      rw [hsub s (List.mem_singleton.2 rfl) t (List.mem_singleton.2 rfl) hst]
    | _ => cases h
  | tuple ss =>
    cases g with
    | tuple ts => rw [hlist ss ts hsub (TypeTree.tuple.inj h)]
    | _ => cases h
  | _ =>
    -- a leaf shows its form
    cases g <;> cases h
    rfl

end TypeForm

namespace Arena

variable {a : Arena} {f : TypeForm} {s t : TypeId}

def treeWithin (a : Arena) : Nat → TypeId → TypeTree
  | 0, _ => .unknown
  | n + 1, t => (a.form t).tree (treeWithin a n)

/-- The tree of a type. -/
def tree (a : Arena) (t : TypeId) : TypeTree := a.treeWithin a.depth t

theorem form_of_not_live (h : ¬ a.Live t) : a.form t = .unknown := by
  rw [form, List.getElem?_eq_none (Nat.le_of_not_lt h)]
  rfl

theorem Ordered.lt_of_mem_parts (ha : a.Ordered) (hs : s ∈ (a.form t).parts) : s.index < t.index := by
  by_cases ht : a.Live t
  · exact ha.parts_lt _ _ ht.forms s hs
  · rw [form_of_not_live ht] at hs
    cases hs

/-- A walk that is given more turns than the index of its type is not cut short. -/
theorem Ordered.treeWithin_eq (ha : a.Ordered) {n m : Nat} (hn : t.index < n) (hm : t.index < m) :
    a.treeWithin n t = a.treeWithin m t := by
  induction n generalizing t m with
  | zero => cases hn
  | succ n ih =>
    cases m with
    | zero => cases hm
    | succ m =>
      refine TypeForm.tree_congr fun s hs => ?_
      have hlt := ha.lt_of_mem_parts hs
      exact ih (by omega) (by omega)

/-- **The tree of a type is that of its form over the trees of its parts.** -/
theorem Ordered.tree_eq (ha : a.Ordered) (t : TypeId) : a.tree t = (a.form t).tree a.tree := by
  refine TypeForm.tree_congr fun s hs => ?_
  by_cases ht : a.Live t
  · have hlt := ha.lt_of_mem_parts hs
    have hsize : t.index < a.size := ht
    exact ha.treeWithin_eq (by omega) (by unfold depth; omega)
  · rw [form_of_not_live ht] at hs
    cases hs

/-- **Live types with one tree are one type.**  The induction goes along the order of the
arena: parts of a type come before it. -/
theorem Canonical.eq_of_tree (ha : a.Canonical) (hs : a.Live s) (ht : a.Live t)
    (h : a.tree s = a.tree t) : s = t := by
  obtain ⟨i⟩ := s
  induction i using Nat.strongRecOn generalizing t with
  | ind i ih =>
    rw [ha.tree_eq, ha.tree_eq] at h
    have hform := TypeForm.eq_of_tree (fun x hx y hy hxy => ?_) h
    · exact ha.eq_of_forms (hform ▸ hs.forms) ht.forms
    · have hx' := ha.parts_lt _ _ hs.forms x hx
      have hy' := ha.parts_lt _ _ ht.forms y hy
      exact ih x.index hx' (Nat.lt_trans hy' ht) (Nat.lt_trans hx' hs) hxy

theorem Canonical.lookup_form (ha : a.Canonical) (ht : a.Live t) : a.lookup (a.form t) = some t := by
  cases h : a.lookup (a.form t) with
  | none => exact absurd (List.mem_of_getElem? ht.forms) (lookup_eq_none.1 h)
  | some u => rw [ha.eq_of_forms (lookup_eq_some h) ht.forms]

theorem intern_of_lookup (h : a.lookup f = some t) : a.intern f = (t, a) := by
  rw [intern, h]

/-- **Handles are canonical.**  In a reached arena the tree of a handle is its form over
the trees of the parts, and live handles have one tree just if they are one handle.  The
form at a handle is found at that handle, and what is interned is found where it was
put.  To intern a form whose tree some live handle has already gives that handle and
leaves the arena as it is. -/
theorem handles_canonical (h : Reached a) :
    (∀ t, a.tree t = (a.form t).tree a.tree) ∧
    (∀ s t, a.Live s → a.Live t → (a.tree s = a.tree t ↔ s = t)) ∧
    (∀ t, a.Live t → a.lookup (a.form t) = some t) ∧
    (∀ f, (a.intern f).2.form (a.intern f).1 = f) ∧
    (∀ f t, (∀ x ∈ f.parts, a.Live x) → a.Live t → f.tree a.tree = a.tree t →
      a.intern f = (t, a)) := by
  have ha := h.canonical
  refine ⟨ha.tree_eq, fun s t hs ht => ⟨ha.eq_of_tree hs ht, fun hst => hst ▸ rfl⟩,
    fun t ht => ha.lookup_form ht, fun f => form_of_forms (forms_intern a f),
    fun f t hparts ht htree => ?_⟩
  have hform : f = a.form t := by
    rw [ha.tree_eq t] at htree
    refine TypeForm.eq_of_tree (fun x hx y hy => ha.eq_of_tree (hparts x hx) ?_) htree
    exact Nat.lt_trans (ha.parts_lt _ _ ht.forms y hy) ht
  exact intern_of_lookup (hform ▸ ha.lookup_form ht)

/-- Calls with a reset among them. -/
def exampleHistory : List Op :=
  [.reference .str false, .reset, .tuple [.i32, .bool], .intern (.tuple []), .declareStruct "P" ⟨0⟩,
    .defineStruct ⟨21⟩ [⟨"x", ⟨19⟩⟩], .pointer ⟨21⟩ true, .tuple []]

/-- The arena they lead to: `⟨19⟩` was a reference before the reset and is a pair now, and
the tuple of no types that was interned is not the unit type. -/
def exampleArena : Arena where
  forms := TypeForm.primitives ++
    [.tuple [.i32, .bool], .tuple [], .struct "P" ⟨0⟩, .pointer ⟨21⟩ true]
  layouts := [(⟨21⟩, .struct [⟨"x", ⟨19⟩⟩])]

theorem reached_exampleArena : Reached exampleArena :=
  Reached.empty.runAll (show runAll exampleHistory empty = some exampleArena by decide)

theorem handles_canonical_exampleArena :
    Reached exampleArena ∧
    exampleArena.tree ⟨22⟩ = .pointer (.struct "P" ⟨0⟩) true ∧
    (exampleArena.tree ⟨20⟩ = exampleArena.tree .unit ↔ (⟨20⟩ : TypeId) = .unit) ∧
    exampleArena.lookup (exampleArena.form ⟨19⟩) = some ⟨19⟩ ∧
    (exampleArena.intern (.array ⟨19⟩ 2)).2.form (exampleArena.intern (.array ⟨19⟩ 2)).1 =
      .array ⟨19⟩ 2 ∧
    exampleArena.intern (.tuple [.i32, .bool]) = (⟨19⟩, exampleArena) := by
  obtain ⟨htree, hinj, hlookup, hform, hintern⟩ := handles_canonical reached_exampleArena
  refine ⟨reached_exampleArena, ?_, hinj _ _ (by decide) (by decide), hlookup _ (by decide), hform _,
    hintern _ _ (by decide) (by decide) (htree ⟨19⟩).symm⟩
  exact (htree ⟨22⟩).trans (congrArg (TypeTree.pointer · true) (htree ⟨21⟩))

end Arena

end RustFlow
