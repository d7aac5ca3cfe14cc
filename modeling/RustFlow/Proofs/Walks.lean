/-
# Walks through an arena end

To display a type, to peel it or to compare two types is to walk from a type to its
parts.  The walks are written here without a bound (`displayWalk`, `peelWalk`,
`assignableWalk`), so that `none` says that a walk does not end.  In an ordered arena
the parts of a type stand before it.  Hence every walk ends, from any index, and gives
what the bounded walk gives (`Ordered.walksEnd`).

The order is a matter of history: a handle that is kept over a reset may close a cycle.
Arenas that are reached by calls on live handles are ordered, and so are those of
assembled programs (`walks_end`).
-/

import RustFlow.Proofs.Handles
import RustFlow.Proofs.Parts
import RustFlow.Proofs.Recursion

namespace RustFlow

namespace Arena

variable {a : Arena} {s t : TypeId}

/-- The text of a type, by walks to its parts. -/
def displayStep (a : Arena) (walk : TypeId → Option String) (t : TypeId) : Option String :=
  match a.form t with
  | .unknown => some "untyped"
  | .unit => some "()"
  | .bool => some "bool"
  | .char => some "char"
  | .str => some "str"
  | .int w => some ("i" ++ w.suffix)
  | .uint w => some ("u" ++ w.suffix)
  | .float w => some w.name
  | .pointer inner m => do
    let text ← walk inner
    return "*" ++ mutMarker m ++ text
  | .reference inner m => do
    let text ← walk inner
    return "&" ++ mutMarker m ++ text
  | .array e len => do
    let text ← walk e
    return "[" ++ text ++ "; " ++ toString len ++ "]"
  | .tuple es => do
    let texts ← es.mapM walk
    return "(" ++ ", ".intercalate texts ++ ")"
  | .struct name _ => some name
  | .enum name _ => some name

/-- The text of a type, by a walk without a bound. -/
noncomputable def displayWalk (a : Arena) (t : TypeId) : Option String :=
  recursion a.displayStep t

/-- The type behind all pointers and references, by a walk to the type behind one. -/
def peelStep (a : Arena) (walk : TypeId → Option TypeId) (t : TypeId) : Option TypeId :=
  match a.form t with
  | .pointer inner _ => walk inner
  | .reference inner _ => walk inner
  | _ => some t

/-- The type behind all pointers and references, by a walk without a bound. -/
noncomputable def peelWalk (a : Arena) (t : TypeId) : Option TypeId :=
  recursion a.peelStep t

/-- Assignability, by walks to the parts of both types. -/
def assignableStep (a : Arena) (walk : TypeId × TypeId → Option Bool) :
    TypeId × TypeId → Option Bool := fun (s, t) =>
  if t = .unknown then some true
  else
    match a.form s, a.form t with
    | .pointer x mx, .pointer y my => if mx = my then walk (x, y) else some false
    | .reference x mx, .reference y my => if mx = my then walk (x, y) else some false
    | .array x lx, .array y ly => if lx = ly then walk (x, y) else some false
    | .tuple xs, .tuple ys => some (xs == ys)
    | .struct nx ox, .struct ny oy =>
      some (nx == ny && ox == oy && a.memberTypes s == a.memberTypes t)
    | .enum nx ox, .enum ny oy => some (nx == ny && ox == oy && a.memberTypes s == a.memberTypes t)
    | .unknown, _ => some false
    | _, _ => some (s == t && s.isPrimitive)

/-- Assignability, by a walk without a bound. -/
noncomputable def assignableWalk (a : Arena) (s t : TypeId) : Option Bool :=
  recursion a.assignableStep (s, t)

theorem displayWalk_step (a : Arena) (t : TypeId) :
    a.displayWalk t = a.displayStep a.displayWalk t := by
  refine recursion_eq (fun t => ?_) t
  unfold displayStep
  cases a.form t with
  | pointer inner m => exact (relies_call inner).bind fun _ => relies_const _
  | reference inner m => exact (relies_call inner).bind fun _ => relies_const _
  | array e len => exact (relies_call e).bind fun _ => relies_const _
  | tuple es => exact (relies_mapM es).bind fun _ => relies_const _
  | _ => exact relies_const _

theorem peelWalk_step (a : Arena) (t : TypeId) : a.peelWalk t = a.peelStep a.peelWalk t := by
  refine recursion_eq (fun t => ?_) t
  unfold peelStep
  cases a.form t with
  | pointer inner m => exact relies_call inner
  | reference inner m => exact relies_call inner
  | _ => exact relies_const _

theorem assignableWalk_step (a : Arena) (s t : TypeId) :
    a.assignableWalk s t = a.assignableStep (fun p => a.assignableWalk p.1 p.2) (s, t) := by
  refine recursion_eq (fun p => ?_) (s, t)
  unfold assignableStep
  dsimp only
  split
  · exact relies_const _
  · split
    any_goals exact relies_const _
    all_goals
      split
      · exact relies_call _
      · exact relies_const _

/-- All walks end, from live types and from others, with the results of bounded walks. -/
structure WalksEnd (a : Arena) : Prop where
  display : ∀ t, a.displayWalk t = some (a.display t)
  peel : ∀ t, a.peelWalk t = some (a.peel t)
  assignable : ∀ s t, a.assignableWalk s t = some (a.assignable s t)

/-- The induction along an ordered arena: a walk of some turns may rely on walks of one
turn less from the parts. -/
theorem Ordered.walk (ha : a.Ordered) {P : Nat → TypeId → Prop}
    (hstep : ∀ n t, (∀ s ∈ (a.form t).parts, P n s) → P (n + 1) t) (t : TypeId) : P a.depth t := by
  have hturns (n : Nat) : ∀ t : TypeId, t.index < n → P n t := by
    induction n with
    | zero => exact fun t ht => by cases ht
    | succ n ih =>
      intro t ht
      refine hstep n t fun s hs => ih s ?_
      have hlt := ha.lt_of_mem_parts hs
      omega
  by_cases ht : a.Live t
  · exact hturns _ t ht.lt_depth
  · refine hstep a.size t fun s hs => ?_
    rw [form_of_not_live ht] at hs
    cases hs

theorem mapM_some {α β : Type} {g : α → Option β} {h : α → β} {xs : List α}
    (hg : ∀ x ∈ xs, g x = some (h x)) : xs.mapM g = some (xs.map h) := by
  induction xs with
  | nil => rfl
  | cons x xs ih =>
    rw [List.mapM_cons, hg x List.mem_cons_self, ih fun y hy => hg y (List.mem_cons_of_mem _ hy)]
    rfl

theorem Ordered.displayWalk_eq (ha : a.Ordered) (t : TypeId) :
    a.displayWalk t = some (a.display t) := by
  refine ha.walk (P := fun n t => a.displayWalk t = some (a.displayWithin n t)) (fun n t ih => ?_) t
  rw [displayWalk_step, displayStep, displayWithin]
  cases hform : a.form t with
  | pointer s m =>
    have hs := ih s (hform ▸ List.mem_singleton.2 rfl)
    simp only [hs, Option.bind_eq_bind, Option.bind_some, Option.pure_def]
  | reference s m =>
    have hs := ih s (hform ▸ List.mem_singleton.2 rfl)
    simp only [hs, Option.bind_eq_bind, Option.bind_some, Option.pure_def]
  | array s len =>
    have hs := ih s (hform ▸ List.mem_singleton.2 rfl)
    simp only [hs, Option.bind_eq_bind, Option.bind_some, Option.pure_def]
  | tuple ss =>
    have hss : ss.mapM a.displayWalk = some (ss.map (a.displayWithin n)) := mapM_some fun s hs =>
      ih s (hform ▸ hs)
    simp only [hss, Option.bind_eq_bind, Option.bind_some, Option.pure_def]
  | _ => rfl

theorem Ordered.peelWalk_eq (ha : a.Ordered) (t : TypeId) : a.peelWalk t = some (a.peel t) := by
  refine ha.walk (P := fun n t => a.peelWalk t = some (a.peelWithin n t)) (fun n t ih => ?_) t
  rw [peelWalk_step, peelStep, peelWithin]
  cases hform : a.form t with
  | pointer s m => exact ih s (hform ▸ List.mem_singleton.2 rfl)
  | reference s m => exact ih s (hform ▸ List.mem_singleton.2 rfl)
  | _ => rfl

theorem ite_eq_some_and {α : Type} [DecidableEq α] (x y : α) (b : Bool) :
    (if x = y then some b else some false) = some (x == y && b) := by
  by_cases h : x = y
  · rw [if_pos h, beq_iff_eq.2 h, Bool.true_and]
  · rw [if_neg h, beq_eq_false_iff_ne.2 h, Bool.false_and]

theorem Ordered.assignableWalk_eq (ha : a.Ordered) (s t : TypeId) :
    a.assignableWalk s t = some (a.assignable s t) := by
  refine ha.walk (P := fun n s => ∀ t, a.assignableWalk s t = some (a.assignableWithin n s t))
    (fun n s ih t => ?_) s t
  rw [assignableWalk_step, assignableStep, assignableWithin]
  split
  · rfl
  · cases hs : a.form s with
    | pointer x mx =>
      have hx := ih x (hs ▸ List.mem_singleton.2 rfl)
      cases a.form t with
      | pointer y my => exact (congrArg (ite _ · _) (hx y)).trans (ite_eq_some_and mx my _)
      | _ => rfl
    | reference x mx =>
      have hx := ih x (hs ▸ List.mem_singleton.2 rfl)
      cases a.form t with
      | reference y my => exact (congrArg (ite _ · _) (hx y)).trans (ite_eq_some_and mx my _)
      | _ => rfl
    | array x lx =>
      have hx := ih x (hs ▸ List.mem_singleton.2 rfl)
      cases a.form t with
      | array y ly => exact (congrArg (ite _ · _) (hx y)).trans (ite_eq_some_and lx ly _)
      | _ => rfl
    | _ => cases a.form t <;> rfl

/-- **Walks through an ordered arena end.** -/
theorem Ordered.walksEnd (ha : a.Ordered) : a.WalksEnd :=
  ⟨ha.displayWalk_eq, ha.peelWalk_eq, ha.assignableWalk_eq⟩

/-- A pointer to itself, which a handle from before a reset can make. -/
def cyclic : Arena := ((empty.intern (.pointer .i32 false)).2.reset.intern (.pointer ⟨19⟩ false)).2

/-- Peeling a pointer to itself does not end. -/
theorem peelWalk_cyclic : cyclic.peelWalk ⟨19⟩ = none := by
  refine Option.eq_none_iff_forall_ne_some.2 fun r hr => ?_
  obtain ⟨n, hn⟩ := exists_turns hr
  induction n with
  | zero => cases hn
  | succ n ih => exact ih hn

end Arena

open Arena Program

/-- **Arenas are well founded, so walks through them end.**  This holds of every arena that
is reached by calls on live handles, and of that of every program, however its files and
items fared. -/
theorem walks_end :
    (∀ a : Arena, Reached a → a.Ordered ∧ a.WalksEnd) ∧
    (∀ p : Program, p.Assembled → p.arena.Ordered ∧ p.arena.WalksEnd) ∧
    (∀ config file source parse p, build config file source parse = .ok p →
      p.arena.Ordered ∧ p.arena.WalksEnd) ∧
    (∀ config read files parse p, buildFiles config read files parse = .ok p →
      p.arena.Ordered ∧ p.arena.WalksEnd) := by
  have hordered {a : Arena} (ha : a.Ordered) : a.Ordered ∧ a.WalksEnd := ⟨ha, ha.walksEnd⟩
  have hassembled {p : Program} (hp : p.Assembled) : p.arena.Ordered :=
    hp.indexed.arena.toOrdered
  exact ⟨fun a ha => hordered ha.canonical.toOrdered,
    fun p hp => hordered (hassembled hp),
    fun _ _ _ _ _ hp => hordered (hassembled (Assembled.empty.addSource hp)),
    fun _ _ _ _ _ hp => hordered (hassembled (Assembled.empty.addFiles hp))⟩

theorem exists_of_any {ε α : Type} {x : Except ε α} {P : α → Bool}
    (h : x.toOption.any P = true) : ∃ v, x = .ok v ∧ P v = true := by
  cases x with
  | error e => cases h
  | ok v => exact ⟨v, rfl, h⟩

/-- A file with an item that fails after it has interned a type, and files with a
recursive type. -/
theorem walks_end_failedItem :
    (Reached exampleArena ∧ exampleArena.WalksEnd) ∧
    (∃ p, build {} "a.rs" "struct P { x: i32 } fn f(p: &P) -> Q {}" = .ok p ∧
      (p.diagnostics.length == 1 && p.arena.size == 21) = true ∧ p.arena.WalksEnd) ∧
    ∃ p, buildFiles {} (fun _ => some "enum E { A(*mut E) }") ["b.rs", "c.rs"] = .ok p ∧
      (p.arena.size == 23) = true ∧ p.arena.WalksEnd := by
  obtain ⟨hreached, -, hbuild, hfiles⟩ := walks_end
  obtain ⟨p, hp, hsize⟩ := exists_of_any (x := build {} "a.rs" "struct P { x: i32 } fn f(p: &P) -> Q {}")
    (P := fun p => p.diagnostics.length == 1 && p.arena.size == 21) (by decide +kernel)
  obtain ⟨q, hq, hsize'⟩ := exists_of_any
    (x := buildFiles {} (fun _ => some "enum E { A(*mut E) }") ["b.rs", "c.rs"])
    (P := fun p => p.arena.size == 23) (by decide +kernel)
  exact ⟨⟨reached_exampleArena, (hreached _ reached_exampleArena).2⟩,
    ⟨p, hp, hsize, (hbuild _ _ _ _ p hp).2⟩, ⟨q, hq, hsize', (hfiles _ _ _ _ q hq).2⟩⟩

end RustFlow
