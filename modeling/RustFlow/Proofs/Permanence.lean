/-
# What is said of a type stays so

An arena only grows until it is reset: a call appends forms or puts a layout in front of
the others, whatever handles it is given, dead ones included (`Op.prefix_run`).  What is
read off a live type is read off forms that are there already, since parts of a type stand
before it.  So the form, the text and the assignability of live types are the same in every
arena that begins with the forms of the old one (`Ordered.display_eq`,
`Canonical.assignable_eq`).

Assignability of structs and enums looks at their layouts, which calls may change.  It is
no exception: the members are compared only for types of one name and owner, and these are
one type.
-/

import RustFlow.Proofs.Assignability

namespace RustFlow
namespace Arena

variable {a b : Arena} {s t : TypeId}

/-! ### Reading the same forms -/

theorem Live.form_eq (ht : a.Live t) (hpre : a.forms <+: b.forms) : b.form t = a.form t :=
  form_of_forms (getElem?_mono hpre ht.forms)

theorem Ordered.live_part (ha : a.Ordered) (ht : a.Live t) (hs : s ∈ (a.form t).parts) :
    a.Live s :=
  Nat.lt_trans (ha.lt_of_mem_parts hs) ht

/-- The text of a live type is that of the same type in a larger arena, if both walks may go
as deep as the type does. -/
theorem Ordered.displayWithin_eq (ha : a.Ordered) (hpre : a.forms <+: b.forms) {n m : Nat}
    (ht : a.Live t) (hn : t.index < n) (hm : t.index < m) :
    b.displayWithin n t = a.displayWithin m t := by
  induction n generalizing t m with
  | zero => cases hn
  | succ n ih =>
    cases m with
    | zero => cases hm
    | succ m =>
      have hparts (s : TypeId) (hs : s ∈ (a.form t).parts) :
          b.displayWithin n s = a.displayWithin m s := by
        have hlt := ha.lt_of_mem_parts hs
        exact ih (ha.live_part ht hs) (by omega) (by omega)
      rw [displayWithin, displayWithin, ht.form_eq hpre]
      cases hf : a.form t with
      | pointer s =>
        dsimp only
        rw [hparts s (hf ▸ List.mem_singleton.2 rfl)]
      | reference s =>
        dsimp only
        rw [hparts s (hf ▸ List.mem_singleton.2 rfl)]
      | array s =>
        dsimp only
        rw [hparts s (hf ▸ List.mem_singleton.2 rfl)]
      | tuple ss =>
        have hmap : ss.map (b.displayWithin n) = ss.map (a.displayWithin m) :=
          List.map_congr_left fun s hs => hparts s (hf ▸ hs)
        dsimp only
        rw [hmap]
      | _ => rfl

/-- **A live type keeps its text.** -/
theorem Ordered.display_eq (ha : a.Ordered) (hpre : a.forms <+: b.forms) (ht : a.Live t) :
    b.display t = a.display t :=
  ha.displayWithin_eq hpre ht (ht.mono hpre).lt_depth ht.lt_depth

/-- Structs or enums of one name and owner have the same members, in any arena. -/
theorem Canonical.members_agree (ha : a.Canonical) (hs : a.Live s) (ht : a.Live t) {p : Bool}
    (hp : p = true → a.form s = a.form t) (c : Arena) :
    (p && c.memberTypes s == c.memberTypes t) = p := by
  cases p with
  | false => rfl
  | true =>
    rw [ha.eq_of_form hs ht (hp rfl), Bool.true_and]
    exact beq_self_eq_true _

theorem Canonical.assignableWithin_eq (ha : a.Canonical) (hpre : a.forms <+: b.forms) {n m : Nat}
    (hs : a.Live s) (ht : a.Live t) (hn : s.index < n) (hm : s.index < m) :
    b.assignableWithin n s t = a.assignableWithin m s t := by
  induction n generalizing s t m with
  | zero => cases hn
  | succ n ih =>
    cases m with
    | zero => cases hm
    | succ m =>
      have hinside {w v : Wrapper} {x y : TypeId} (hfs : a.form s = w.around x)
          (hft : a.form t = v.around y) : b.assignableWithin n x y = a.assignableWithin m x y := by
        obtain ⟨hx, hlt⟩ := ha.inside hs hfs
        exact ih hx (ha.inside ht hft).1 (by omega) (by omega)
      rw [assignableWithin, assignableWithin, hs.form_eq hpre, ht.form_eq hpre]
      split
      · rfl
      · split
        · rename_i x mx y my hfs hft
          rw [hinside (w := .pointer mx) (v := .pointer my) hfs hft]
        · rename_i x mx y my hfs hft
          rw [hinside (w := .reference mx) (v := .reference my) hfs hft]
        · rename_i x lx y ly hfs hft
          rw [hinside (w := .array lx) (v := .array ly) hfs hft]
        · rfl
        · rename_i nx ox ny oy hfs hft
          have hone : (nx == ny && ox == oy) = true → a.form s = a.form t := by
            rw [hfs, hft]
            simp
          rw [ha.members_agree hs ht hone, ha.members_agree hs ht hone]
        · rename_i nx ox ny oy hfs hft
          have hone : (nx == ny && ox == oy) = true → a.form s = a.form t := by
            rw [hfs, hft]
            simp
          rw [ha.members_agree hs ht hone, ha.members_agree hs ht hone]
        · rfl
        · rfl

/-- **Live types stay assignable or not**, also if layouts change. -/
theorem Canonical.assignable_eq (ha : a.Canonical) (hpre : a.forms <+: b.forms) (hs : a.Live s)
    (ht : a.Live t) : b.assignable s t = a.assignable s t :=
  ha.assignableWithin_eq hpre hs ht (hs.mono hpre).lt_depth hs.lt_depth

theorem Canonical.common_eq (ha : a.Canonical) (hpre : a.forms <+: b.forms) (hs : a.Live s)
    (ht : a.Live t) : b.common s t = a.common s t := by
  rw [common, common, ha.assignable_eq hpre hs ht, ha.assignable_eq hpre ht hs]

/-! ### Calls append forms -/

/-- A preorder of arenas that goes up whenever a form is interned, declared types apart. -/
structure Upward (R : Arena → Arena → Prop) : Prop where
  refl : ∀ a, R a a
  trans : ∀ {a b c : Arena}, R a b → R b c → R a c
  intern : ∀ (a : Arena) {f : TypeForm}, f.isNamed = false → R a (a.intern f).2

/-- A computation that goes up, from any arena. -/
def Rises (R : Arena → Arena → Prop) {α : Type} (m : Attempt Arena α) : Prop := ∀ a, R a (m a).2

namespace Upward

variable {R : Arena → Arena → Prop} {α β : Type} {m : Attempt Arena α} (hR : Upward R)

include hR

theorem rises_pure (v : α) : Rises R (Pure.pure v) := hR.refl

theorem rises_throw (e : Error) : Rises R (MonadExcept.throw e : Attempt Arena α) := hR.refl

theorem rises_bind {next : α → Attempt Arena β} (hm : Rises R m) (hnext : ∀ v, Rises R (next v)) :
    Rises R (m >>= next) := by
  intro a
  have hfirst := hm a
  rw [Attempt.bind_run]
  rcases hrun : m a with ⟨e | v, a'⟩
  · rw [hrun] at hfirst
    exact hfirst
  · rw [hrun] at hfirst
    exact hR.trans hfirst (hnext v a')

theorem rises_tuple (ts : List TypeId) : Rises R (modifyGet fun a => a.tuple ts) := by
  intro a
  cases ts with
  | nil => exact hR.refl a
  | cons t ts => exact hR.intern a rfl

theorem rises_resolvePath (scope : Scope) (p : Ast.Path) : Rises R (scope.resolvePath p) := by
  refine hR.rises_bind hR.refl fun a => ?_
  dsimp only
  split
  · exact hR.rises_pure _
  · split
    · exact hR.rises_pure _
    · split
      · exact hR.rises_pure _
      · split
        · exact hR.rises_pure _
        · split
          · exact hR.rises_throw _
          · exact hR.rises_pure _

mutual

/-- Resolution only interns composites, whatever `Self` stands for. -/
theorem rises_resolve (scope : Scope) : ∀ t : Ast.TypeExpr, Rises R (scope.resolve t)
  | .paren t => by
    exact rises_resolve scope t
  | .tuple ts => by
    exact hR.rises_bind (rises_resolveAll scope ts) hR.rises_tuple
  | .array t length => by
    refine hR.rises_bind (rises_resolve scope t) fun e => ?_
    cases length with
    | some n => exact fun a => hR.intern a rfl
    | none => exact hR.rises_pure _
  | .pointer _ t => by
    exact hR.rises_bind (rises_resolve scope t) fun _ a => hR.intern a rfl
  | .reference _ t => by
    exact hR.rises_bind (rises_resolve scope t) fun _ a => hR.intern a rfl
  | .path p => by
    simp only [Scope.resolve]
    split
    · exact hR.rises_pure _
    · exact hR.rises_resolvePath scope p
  | .bareBound _ => by
    exact hR.rises_pure _
  | .other => by
    exact hR.rises_pure _

theorem rises_resolveAll (scope : Scope) : ∀ ts : List Ast.TypeExpr, Rises R (scope.resolveAll ts)
  | [] => by
    exact hR.rises_pure _
  | t :: ts => by
    refine hR.rises_bind (rises_resolve scope t) fun _ => ?_
    exact hR.rises_bind (rises_resolveAll scope ts) fun _ => hR.rises_pure _

end

theorem rises_resolveResult (scope : Scope) (result : Option Ast.TypeAnn) :
    Rises R (scope.resolveResult result) := by
  cases result with
  | none => exact hR.rises_pure _
  | some type => exact hR.rises_resolve scope type.type

end Upward

theorem upward_prefix : Upward fun a b => a.forms <+: b.forms :=
  ⟨fun _ => List.prefix_refl _, List.IsPrefix.trans, fun a f _ => prefix_intern a f⟩

/-- **The step:** a call other than a reset appends forms, whatever handles it is given. -/
theorem Op.prefix_run (op : Op) (hop : op ≠ .reset) (a : Arena) : a.forms <+: (op.run a).forms := by
  cases op with
  | reset => exact absurd rfl hop
  | primitive => exact List.prefix_refl _
  | intern f => exact prefix_intern a f
  | pointer t m => exact prefix_intern a _
  | reference t m => exact prefix_intern a _
  | array t n => exact prefix_intern a _
  | tuple ts => exact upward_prefix.rises_tuple ts a
  | declareStruct name owner => exact prefix_intern a _
  | declareEnum name owner => exact prefix_intern a _
  | defineStruct => exact List.prefix_refl _
  | defineEnum t names shapes =>
    simp only [Op.run, Arena.defineEnum]
    split <;> exact List.prefix_refl _
  | resolve scope type => exact upward_prefix.rises_resolve scope type a
  | resolveResult scope result => exact upward_prefix.rises_resolveResult scope result a

/-- The arena after a list of calls, whatever handles they are given. -/
def runEach (ops : List Op) (a : Arena) : Arena := ops.foldl (fun a op => op.run a) a

/-- The run: without a reset the forms of an arena stay in front. -/
theorem prefix_runEach {ops : List Op} (hops : .reset ∉ ops) (a : Arena) :
    a.forms <+: (runEach ops a).forms := by
  induction ops generalizing a with
  | nil => exact List.prefix_refl _
  | cons op ops ih =>
    obtain ⟨hop, hrest⟩ := not_or.1 (List.mem_cons.not.1 hops)
    exact (op.prefix_run (Ne.symm hop) a).trans (ih hrest (op.run a))

/-- **Answers about types are permanent.**  In a reached arena, after any calls that are no
reset, on any handles, live types have the forms and texts that they had, and comparing
them, bounding them and typing an operator over them gives what it gave. -/
theorem answers_permanent (h : Reached a) {ops : List Op} (hops : .reset ∉ ops) (hs : a.Live s)
    (ht : a.Live t) :
    (runEach ops a).form s = a.form s ∧ (runEach ops a).display s = a.display s ∧
    (runEach ops a).assignable s t = a.assignable s t ∧
    (runEach ops a).common s t = a.common s t ∧
    (runEach ops a).operatorResult s t = a.operatorResult s t := by
  have ha := h.canonical
  have hpre := prefix_runEach hops a
  exact ⟨hs.form_eq hpre, ha.display_eq hpre hs, ha.assignable_eq hpre hs ht,
    ha.common_eq hpre hs ht, rfl⟩

/-- Calls that give a struct other members, a primitive a layout and a pointer a dead target. -/
def laterCalls : List Op :=
  [.defineStruct ⟨23⟩ [⟨"x", .bool⟩, ⟨"y", ⟨99⟩⟩], .defineEnum .i32 ["A"] [.unit],
    .pointer ⟨26⟩ false, .declareEnum "P" ⟨0⟩, .resolve ⟨⟨0⟩, some ⟨7⟩, [], true, "a.rs"⟩
      (.reference true (.tuple [.paren .other]))]

theorem answers_permanent_laterCalls :
    Reached nestedReferences ∧ (.reset ∉ laterCalls) ∧
    ((runEach laterCalls nestedReferences).memberTypes ⟨23⟩ = [.bool, ⟨99⟩] ∧
      (runEach laterCalls nestedReferences).size = 29) ∧
    (runEach laterCalls nestedReferences).display ⟨24⟩ = "*mut P" ∧
    (runEach laterCalls nestedReferences).assignable ⟨23⟩ ⟨23⟩ = true ∧
    (runEach laterCalls nestedReferences).common ⟨20⟩ ⟨22⟩ = ⟨22⟩ := by
  have hops : .reset ∉ laterCalls := by simp [laterCalls]
  obtain ⟨-, htext, -⟩ := answers_permanent (s := ⟨24⟩) (t := ⟨24⟩) reached_nestedReferences hops
    (by decide) (by decide)
  obtain ⟨-, -, hself, -⟩ := answers_permanent (s := ⟨23⟩) (t := ⟨23⟩) reached_nestedReferences hops
    (by decide) (by decide)
  obtain ⟨-, -, -, hbound, -⟩ := answers_permanent (s := ⟨20⟩) (t := ⟨22⟩) reached_nestedReferences
    hops (by decide) (by decide)
  refine ⟨reached_nestedReferences, hops, ⟨by decide, by decide⟩, ?_, ?_, ?_⟩
  · rw [htext]
    decide
  · rw [hself]
    decide
  · rw [hbound]
    decide

end Arena
end RustFlow
