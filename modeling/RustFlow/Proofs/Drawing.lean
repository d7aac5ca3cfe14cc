/-
# Every construct is drawn

By induction over the syntax, lowering a construct builds the fragment that the layout
gives it (`constructs_lowerFlow`, `constructs_lowerBlock`).  The same induction follows the
ledger, so it also says how control forks at every node.  A `Design` may ask more of a
body than that it can be lowered; `Design.Covers` says what it asks of each place.
-/

import RustFlow.Proofs.Jumpless
import RustFlow.Proofs.Ledger

namespace RustFlow

open Attempt

/-- The loops that some jumps leave. -/
def leavesOf (js : List JumpSite) : List Nat := js.filterMap JumpSite.leaves?

@[simp] theorem leavesOf_nil : leavesOf [] = [] := rfl

@[simp] theorem leavesOf_append (js js' : List JumpSite) :
    leavesOf (js ++ js') = leavesOf js ++ leavesOf js' := List.filterMap_append

/-- The loops left by one part and then by the next are those left by both. -/
theorem mem_leavesOf_next (js js' : List JumpSite) {left : List Nat} :
    ∀ l ∈ leavesOf (js ++ js') ++ left, l ∈ leavesOf js' ++ (leavesOf js ++ left) := by
  simp only [leavesOf_append, List.mem_append]
  tauto

/-- What a design asks of a place: if edges in sequence are not to be chosen from, a `loop`
is left by a `break`; the test of the last arm of a `match` needs no false edge if the
value is returned or the arm takes every value. -/
structure Design.Covers (D : Design) (set : Setting) (p : Place) : Prop where
  strict : ∀ pos label body, p.expr = .loop pos label body → D.strict →
    p.loops.length ∈ leavesOf (body.jumps (label :: p.loops))
  sole : ∀ pos scrutinee arms arm value t, p.expr = .matchOn pos scrutinee arms →
    scrutinee.Becomes set.scope value → arms.getLast? = some arm →
    p.returned = true ∨ arm.takesAll = true → arm.TestedBy set value t → D.sole t

namespace Body

open Graph Ast

variable {α : Type} {set : Setting} {D : Design} {labels : List (Option String)} {O : Ledger}
  {left : List Nat} {b : Body} {js js' : List JumpSite} {R R' : List Targets → Fragment → Prop}

/-- A computation that builds a fragment and leaves the ledger as it was, but for the exit
of the fragment. -/
def Constructs (D : Design) (labels : List (Option String)) (js : List JumpSite)
    (act : Attempt Body Fragment) (R : List Targets → Fragment → Prop) : Prop :=
  ∀ O left b, Builds D labels O left act b (fun f => f.exits ++ O) (leavesOf js ++ left) R

theorem Constructs.imp {act : Attempt Body Fragment} (h : Constructs D labels js act R)
    (hR : ∀ T f, R T f → R' T f) : Constructs D labels js act R' :=
  fun O left b => (h O left b).imp hR

theorem constructs_refuse {what : Construct} {pos : Position} :
    Constructs D labels js (set.scope.refuse what pos) R := fun _ _ _ => .fails

theorem Constructs.afterContext {m : Attempt Context α} {next : α → Attempt Body Fragment}
    (h : ∀ v c c', m c = (.ok v, c') → Constructs D labels js (next v) R) :
    Constructs D labels js (Body.onContext m >>= next) R := fun O left b =>
  .onContext fun v c b₁ hm _ => h v b.context c hm O left b₁

/-! ### Nodes -/

theorem constructs_single (s : Statement) :
    Constructs D labels [] (single s) fun _ f => D.graph.Single s f := by
  intro O left b
  refine .add (.restate (fun _ hx => hx.loose) (.pure rfl (fun i hi => hi) fun T _ hnode => ?_))
  exact ⟨hnode, rfl⟩

theorem constructs_sendTo (sink : Sink) (t : Term) :
    Constructs D labels [] (sendTo sink t) fun _ f => D.graph.Delivers sink t f := by
  cases sink with
  | discard => exact constructs_single _
  | assigned target => exact constructs_single _
  | returned =>
    intro O left b
    refine .add (.leaveIdle (.pure rfl (fun i hi => hi) fun T _ hnode => ?_))
    exact ⟨hnode, rfl⟩

theorem becomes_of_run {e : Expr} {t : Term} {c c' : Context}
    (h : set.scope.lowerExpr e c = (.ok t, c')) : e.Becomes set.scope t :=
  ⟨(set.scope.jumpless_lowerExpr [] e).eq_nil h, c, c', h⟩

theorem jumps_of_run {e : Expr} {t : Term} {c c' : Context}
    (h : set.scope.lowerExpr e c = (.ok t, c')) : e.jumps labels = [] :=
  (set.scope.jumpless_lowerExpr labels e).eq_nil h

theorem constructs_plain (sink : Sink) (e : Expr) :
    Constructs D labels (e.jumps labels) (plain set sink e)
      fun _ f => ∃ t, e.Becomes set.scope t ∧ D.graph.Delivers sink t f := by
  refine .afterContext fun t c c' hrun => ?_
  rw [jumps_of_run hrun]
  exact (constructs_sendTo sink t).imp fun T f hf => ⟨t, becomes_of_run hrun, hf⟩

/-! ### Branches -/

theorem perm_pull (A B : Ledger) (p : NodeId × Status) (O : Ledger) :
    (A ++ (B ++ p :: O)).Perm (p :: (A ++ (B ++ O))) := by
  rw [← List.append_assoc, ← List.append_assoc]
  exact List.perm_middle

theorem perm_push (p : NodeId × Status) (A B O : Ledger) :
    (p :: (A ++ (B ++ O))).Perm (B ++ p :: (A ++ O)) :=
  (List.perm_append_comm_assoc A B O |>.cons p).trans List.perm_middle.symm

/-- **One guarded branch.** -/
theorem Builds.guarded {c : NodeId} {pending : Option NodeId} {Q : Term → Prop} {t : Term}
    {body : Attempt Body Fragment} (hbody : Constructs D labels js body R) :
    Builds D labels (pending.toList.map (Prod.mk · (.tested Q)) ++ O) left
      (Body.guarded c pending t body) b (fun n => (n, .tested (· = t)) :: O) (leavesOf js ++ left)
      fun T n => (∀ p, pending = some p → ⟨p, n, .whenFalse⟩ ∈ D.graph.edges) ∧
        D.graph.node? n = some (.ofTerm t) ∧ ∃ taken, R T taken ∧
          ⟨n, taken.entry, .whenTrue⟩ ∈ D.graph.edges ∧ D.graph.LeadsTo taken c := by
  have hrest (b₁ : Body) (n : NodeId) : Builds D labels ((n, .guard t) :: O) left
      (do
        let taken ← body
        Body.edge n taken.entry .whenTrue
        Body.connect taken.exit c
        return n) b₁ (fun n => (n, .tested (· = t)) :: O) (leavesOf js ++ left)
      fun T m => m = n ∧ ∃ taken, R T taken ∧ ⟨n, taken.entry, .whenTrue⟩ ∈ D.graph.edges ∧
        D.graph.LeadsTo taken c := by
    refine (hbody _ _ _).bind fun taken b₂ _ _ => .perm List.perm_middle (.take ?_)
    refine .perm List.perm_middle.symm (.connect fun b₃ _ => .pure rfl (fun i hi => hi) ?_)
    intro T _ hleads htaken hR
    exact ⟨rfl, taken, hR, htaken, hleads⟩
  cases pending with
  | none =>
    refine .addGuard ((hrest _ _).imp ?_)
    rintro T n ⟨rfl, htaken⟩ hnode
    exact ⟨fun p hp => (by cases hp), hnode, htaken⟩
  | some p =>
    refine .addGuard (.perm (List.Perm.swap _ _ _) (.miss ((hrest _ _).imp ?_)))
    rintro T n ⟨rfl, htaken⟩ hmissed hnode
    refine ⟨fun q hq => ?_, hnode, htaken⟩
    cases hq
    exact hmissed

/-- **An `if` chain.** -/
theorem constructs_ifChain {pos : Position} {clauses : NodeId → Attempt Body (Option Guards)}
    {otherwise : Option (Attempt Body Fragment)} {empty : Bool}
    {Q : NodeId → List Targets → NodeId → NodeId → Prop}
    (hempty : ∀ c b r b', clauses c b = (.ok r, b') → r.isNone = empty)
    (hclauses : ∀ c O left b, Builds D labels O left (clauses c) b
      (fun r => (r.elim [] fun gs => [(gs.last, .tested fun _ => True)]) ++ O) (leavesOf js ++ left)
      fun T r => ∀ gs, r = some gs →
        ∀ last, ⟨gs.last, last, .whenFalse⟩ ∈ D.graph.edges → Q c T gs.first last)
    (hother : ∀ m, otherwise = some m → Constructs D labels js' m R)
    (hnone : otherwise = none → js' = []) :
    Constructs D labels (js ++ if empty then [] else js') (ifChain pos clauses otherwise)
      fun T f => ∃ c, D.graph.node? c = some (.noOp pos) ∧ f.exit = some c ∧
        (empty = true ∧ f.entry = c ∨ empty = false ∧ ∃ last, Q c T f.entry last ∧
          (otherwise = none ∧ last = c ∨ otherwise ≠ none ∧
            ∃ inner, last = inner.entry ∧ R T inner ∧ D.graph.LeadsTo inner c)) := by
  intro O left b
  refine .add ((hclauses _ _ _ _).bind fun r b₁ hrun _ => ?_)
  have hr := hempty _ _ _ _ hrun
  cases r with
  | none =>
    obtain rfl : empty = true := hr.symm
    refine .restate (fun _ hx => hx.loose) (.pure rfl (fun l hl => by simpa using hl) ?_)
    intro T _ _ hnode
    exact ⟨_, hnode, rfl, .inl ⟨rfl, rfl⟩⟩
  | some gs =>
    obtain rfl : empty = false := hr.symm
    cases otherwise with
    | none =>
      obtain rfl := hnone rfl
      refine .miss (.restate (fun _ hx => hx.loose) (.pure rfl (fun l hl => by simpa using hl) ?_))
      intro T _ hlast hQ hnode
      exact ⟨_, hnode, rfl, .inr ⟨rfl, _, hQ gs rfl _ hlast, .inl ⟨rfl, rfl⟩⟩⟩
    | some m =>
      refine (hother m rfl _ _ _).bind fun taken b₂ _ _ => .perm List.perm_middle (.miss ?_)
      refine .connect fun b₃ _ => .restate (fun _ hx => hx.loose) (.pure rfl (fun l hl => ?_) ?_)
      · simp only [Bool.false_eq_true, if_false, leavesOf_append, List.mem_append] at hl ⊢
        tauto
      · intro T _ hleads hlast hR hQ hnode
        refine ⟨_, hnode, rfl, .inr ⟨rfl, _, hQ gs rfl _ hlast, .inr ⟨?_, taken, rfl, hR, hleads⟩⟩⟩
        exact Option.some_ne_none m

/-- **A `match`.**  The last test has a false edge unless it needs none. -/
theorem constructs_matchChain {pos : Position} {sink : Sink} {E : Prop}
    {arms : NodeId → Attempt Body (Option (Guards × Bool))}
    {Q : NodeId → List Targets → NodeId → Option NodeId → Prop}
    (harms : ∀ c O left b, Builds D labels O left (arms c) b
      (fun r => (r.elim [] fun a => [(a.1.last,
        .tested fun t => a.2 = true ∨ sink.isReturned = true → D.sole t)]) ++ O)
      (leavesOf js ++ left)
      fun T r => match r with
        | none => E
        | some a => ∀ last, (∀ m, last = some m → ⟨a.1.last, m, .whenFalse⟩ ∈ D.graph.edges) →
          Q c T a.1.first last) :
    Constructs D labels js (matchChain pos sink arms)
      fun T f => ∃ c, D.graph.node? c = some (.noOp pos) ∧ (f.exit = some c ∨ f.exit = none) ∧
        (E ∧ f.entry = c ∨ ∃ last, (last = some c ∨ last = none) ∧ Q c T f.entry last) := by
  intro O left b
  refine .add ((harms _ _ _ _).bind fun r b₁ _ _ => ?_)
  cases r with
  | none =>
    refine .restate (fun _ hx => hx.loose) (.pure rfl (fun l hl => hl) ?_)
    intro T _ hempty hnode
    exact ⟨_, hnode, .inl rfl, .inl ⟨hempty, rfl⟩⟩
  | some a =>
    obtain ⟨gs, exhaustive⟩ := a
    -- the convergence is the exit if anything leads to it
    have hdone (b₂ : Body) : Builds D labels ((b.size, .idle) :: O) (leavesOf js ++ left)
        (do
          let now ← get
          return (⟨gs.first,
            if (!(now.graph.incoming b.size).isEmpty) = true then some b.size else none⟩ :
            Fragment)) b₂
        (fun f => f.exits ++ O) (leavesOf js ++ left)
        fun _ f => f.entry = gs.first ∧ (f.exit = some b.size ∨ f.exit = none) := by
      refine .get ?_
      split
      · refine .restate (fun _ hx => hx.loose) (.pure rfl (fun l hl => hl) ?_)
        exact fun T _ => ⟨rfl, .inl rfl⟩
      · exact .leaveIdle (.pure rfl (fun l hl => hl) fun T _ => ⟨rfl, .inr rfl⟩)
    by_cases hx : (!exhaustive && !sink.isReturned) = true
    · simp only [hx, if_true]
      refine .miss ((hdone _).imp ?_)
      rintro T f ⟨hentry, hexit⟩ hlast hQ hnode
      refine ⟨_, hnode, hexit, .inr ⟨some b.size, .inl rfl, hentry ▸ hQ _ fun m hm => ?_⟩⟩
      cases hm
      exact hlast
    · simp only [hx]
      refine .spare (fun t ht => ht ?_) ((hdone _).imp ?_)
      · revert hx
        cases exhaustive <;> cases sink.isReturned <;> simp
      · rintro T f ⟨hentry, hexit⟩ hQ hnode
        exact ⟨_, hnode, hexit, .inr ⟨none, .inr rfl, hentry ▸ hQ none fun m hm => by cases hm⟩⟩

/-! ### Loops -/

section Loops

variable {label : Option String} {pos : Position} {body : Attempt Body Fragment}
  (hbody : Constructs D (label :: labels) js body R)

include hbody

/-- **A `while` loop.** -/
theorem constructs_whileLoop (t : Term) :
    Constructs D labels js (whileLoop pos label t body) fun T f => ∃ c inner,
      f.exit = some c ∧ D.graph.node? c = some (.noOp pos) ∧
        D.graph.GuardAt f.entry t inner (some c) ∧ D.graph.LeadsTo inner f.entry ∧
        R (⟨label, some c, f.entry⟩ :: T) inner := by
  intro O left b
  refine .addGuard (.add (.perm (List.Perm.swap _ _ _) (.inLoop (hbody _ _ _) ?_)))
  intro inner frame b₁ _ _
  refine .perm (perm_pull _ _ _ _) (.take (.perm (perm_push _ _ _ _) (.connect fun b₂ _ => ?_)))
  refine .miss ((Builds.resolveJumps frame _ _).bind fun _ b₃ _ _ => ?_)
  refine .restate (fun _ hx => hx.loose) (.pure rfl (fun l hl => hl) ?_)
  intro T _ hhops hmissed hleads htaken
  refine ⟨⟨label, some _, _⟩, rfl, hhops _ (fun _ => rfl) rfl, fun hR hconv hguard => ?_⟩
  exact ⟨_, inner, rfl, hconv, ⟨hguard, htaken, fun m hm => Option.some.inj hm ▸ hmissed⟩,
    hleads, hR⟩

/-- **A `loop`.**  Without a `break` its exit is that of its body, from which control also
goes back to the start. -/
theorem constructs_plainLoop (hstrict : D.strict → labels.length ∈ leavesOf js) :
    Constructs D labels js (plainLoop pos label body) fun T f => ∃ leave inner,
      f.entry = inner.entry ∧ D.graph.LeadsTo inner inner.entry ∧
        (match leave with
          | some c => f.exit = some c ∧ D.graph.node? c = some (.noOp pos)
          | none => f.exit = inner.exit) ∧
        R (⟨label, leave, inner.entry⟩ :: T) inner := by
  intro O left b
  refine .inLoop (hbody _ _ _) fun inner frame b₁ _ hbreaks => ?_
  refine .perm (List.perm_append_comm_assoc _ _ _) ?_
  by_cases hnone : frame.breaks.isEmpty = true
  · have hnil : frame.breaks = [] := List.isEmpty_iff.1 hnone
    refine .connectKeep (fun hs => hbreaks (hstrict hs) hnil) fun b₂ _ => ?_
    simp only [hnone, if_true]
    refine .perm (List.perm_append_comm_assoc _ _ _) ((Builds.resolveJumps frame _ _).bind ?_)
    refine fun _ b₃ _ _ => .pure rfl (fun l hl => hl) ?_
    intro T _ hhops hleads
    refine ⟨⟨label, none, inner.entry⟩, rfl, hhops _ (fun h => absurd hnil h) rfl, fun hR => ?_⟩
    exact ⟨none, inner, rfl, hleads, rfl, hR⟩
  · refine .connect fun b₂ _ => ?_
    simp only [hnone]
    refine .add (.perm List.perm_middle.symm ((Builds.resolveJumps frame _ _).bind ?_))
    refine fun _ b₃ _ _ => .restate (fun _ hx => hx.loose) (.pure rfl (fun l hl => hl) ?_)
    intro T _ hhops hconv hleads
    refine ⟨⟨label, some _, inner.entry⟩, rfl, hhops _ (fun _ => rfl) rfl, fun hR => ?_⟩
    exact ⟨some _, inner, rfl, hleads, ⟨rfl, hconv⟩, hR⟩

/-- **A `for` loop.** -/
theorem constructs_forLoop (pat : Pat) (iterable : Expr) :
    Constructs D labels (iterable.jumps labels ++ js) (forLoop set pos label pat iterable body)
      fun T f => ∃ source p first guard c step inner,
        iterable.Becomes set.scope source ∧ (∃ c c', set.scope.lowerPat pat c = (.ok p, c')) ∧
          D.graph.Stepped pos pat.pos source p f.entry first guard step ∧ f.exit = some c ∧
          D.graph.node? c = some (.noOp pos) ∧
          D.graph.GuardAt guard
            (.binary .ne (.ofPattern p pat.pos) (.mk .exhausted .unknown pat.pos) pat.pos) inner
            (some c) ∧
          D.graph.LeadsTo inner step ∧ R (⟨label, some c, step⟩ :: T) inner := by
  intro O left b
  refine .freshName fun iterator b₁ _ => .onContext fun source c₁ b₂ hsource _ => ?_
  rw [jumps_of_run hsource]
  refine .add (.onContext fun _ _ b₃ _ _ => .onContext fun p c₂ b₄ hp _ => ?_)
  refine .onContext fun _ _ b₅ _ _ => .get (.add (.perm (List.Perm.swap _ _ _) (.lead ?_)))
  refine .addGuard (.perm (List.Perm.swap _ _ _) (.lead (.add (.perm (List.Perm.swap _ _ _) ?_))))
  refine .inLoop (hbody _ _ _) fun inner frame b₆ hsize _ => .get (.add ?_)
  refine .perm (((perm_pull _ _ _ _).cons _).trans (List.Perm.swap _ _ _)) (.take (.miss ?_))
  refine .perm (perm_push _ _ _ _) (.connect fun b₇ _ => .lead ?_)
  refine (Builds.resolveJumps frame _ _).bind fun _ b₈ _ _ => ?_
  refine .restate (fun _ hx => hx.loose) (.pure rfl (fun l hl => hl) ?_)
  intro T _ hhops hstep hleads hmissed htaken hstepNode
  refine ⟨⟨label, some _, _⟩, rfl, hhops _ (fun _ => rfl) rfl, ?_⟩
  intro hR hconv hfirst hguard hinit hfirstNode hinitNode
  have hdistinct : b₅.size ≠ b₆.size := by
    simp only [size_withNode, size_withEdge] at hsize
    omega
  exact ⟨source, p, _, _, _, _, inner, becomes_of_run hsource, ⟨_, _, hp⟩,
    ⟨⟨iterator, _, _, hinitNode, hfirstNode, hstepNode⟩, hdistinct, hinit, hfirst, hstep⟩, rfl,
    hconv,
    ⟨hguard, htaken, fun m hm => Option.some.inj hm ▸ hmissed⟩, hleads, hR⟩

end Loops

/-- **A jump.** -/
theorem constructs_jump (kind : Jump) (label : Option String) (pos : Position) :
    Constructs D labels [⟨kind, label, pos, labels⟩] (jump set.scope kind label pos)
      fun T f => D.graph.Routed T kind label pos f := by
  refine fun O left b => .jump fun l hl => (List.mem_append.1 hl).imp_left fun hl => ?_
  obtain ⟨site, hsite, hl⟩ := List.mem_filterMap.1 hl
  exact List.mem_singleton.1 hsite ▸ hl

/-! ### Values -/

/-- **A `let` whose value has control flow.** -/
theorem constructs_letFlow {pos : Position} {p : Pattern} {ascription : Option String}
    {declared : Option TypeId} {flow : Sink → Attempt Body Fragment}
    {S : Sink → List Targets → Fragment → Prop}
    (h : ∀ t, Constructs D labels js (flow (.assigned t)) (S (.assigned t))) :
    Constructs D labels js (letFlow set pos p ascription declared flow)
      fun T f => ∃ v declaration value, p = .binding v ∧
        D.graph.Single (.ofTerm (.mk (.declare p ascription none) (declared.getD .unknown) pos))
          declaration ∧
        S (.assigned (.mk (.var v) (declared.getD .unknown) pos)) T value ∧
        D.graph.Joins (some declaration) value f := by
  intro O left b
  cases p with
  | binding v =>
    refine (constructs_single _ _ _ _).bind fun declaration b₁ _ _ => ?_
    refine (h _ _ _ _).bind fun value b₂ _ _ => .onContext fun _ _ b₃ _ _ => ?_
    refine (Builds.chain (some declaration) value).imp ?_
    intro T f hjoins hvalue hdeclaration
    exact ⟨v, declaration, value, rfl, hdeclaration, hvalue, hjoins⟩
  | _ => exact .fails

theorem constructs_letPlain {pos : Position} {p : Pattern} {ascription : Option String}
    {declared : Option TypeId} (e : Expr) :
    Constructs D labels (e.jumps labels) (letPlain set pos p ascription declared e)
      fun _ f => ∃ type t, e.Becomes set.scope t ∧
        D.graph.Single (.ofTerm (.mk (.declare p ascription (some t)) type pos)) f := by
  refine .afterContext fun t c c' hrun => .afterContext fun _ _ _ _ => ?_
  rw [jumps_of_run hrun]
  exact (constructs_single _).imp fun T f hf => ⟨_, t, becomes_of_run hrun, hf⟩

/-- **A `return` of a value with control flow.** -/
theorem constructs_returnFlow {pos : Position} {flow : Sink → Attempt Body Fragment}
    {S : Sink → List Targets → Fragment → Prop}
    (h : ∀ sink : Sink, sink.isReturned = !set.returnsUnit →
      Constructs D labels js (flow sink) (S sink)) :
    Constructs D labels js (returnFlow set pos flow)
      fun T f => if set.returnsUnit then ∃ value bare, S .discard T value ∧
          D.graph.Single ⟨.writtenReturn none, pos⟩ bare ∧ D.graph.Joins (some value) bare f
        else S .returned T f := by
  intro O left b
  unfold returnFlow
  cases hunit : set.returnsUnit with
  | true =>
    refine (h .discard (by rw [hunit]; rfl) _ _ _).bind fun value b₁ _ _ => ?_
    refine (constructs_single _ _ _ _).bind fun bare b₂ _ _ => ?_
    refine (Builds.chain (some value) bare).imp ?_
    intro T f hjoins hbare hvalue
    exact ⟨value, bare, hvalue, hbare, hjoins⟩
  | false => exact h .returned (by rw [hunit]; rfl) _ _ _

/-! ### Statements and expressions -/

theorem isReturned_ite (c : Bool) (sink : Sink) :
    (if c then sink else .discard).isReturned = (c && sink.isReturned) := by
  cases c <;> rfl

theorem testedBy_of_run {value t : Term} {pat : Pat} {guard : Option Expr} {body : Expr}
    {exhaustive : Bool} {c c' : Context}
    (h : armTest set value pat guard c = (.ok (t, exhaustive), c')) :
    (Arm.mk pat guard body).TestedBy set value t :=
  ⟨(jumpless_armTest set [] value pat guard).eq_nil h, c, exhaustive, c', h⟩

theorem isNone_of_lowerArms {sink : Sink} {c : NodeId} {value : Term} {pending : Option NodeId}
    {arms : List Arm} {r : Option (Guards × Bool)} {b b' : Body}
    (h : lowerArms set sink c value pending arms b = (.ok r, b')) : r.isNone = arms.isEmpty := by
  cases arms with
  | nil =>
    cases h
    rfl
  | cons arm rest =>
    obtain ⟨pat, extra, body⟩ := arm
    rw [lowerArms] at h
    obtain ⟨_, _, -, h⟩ := bind_ok h
    obtain ⟨_, _, -, h⟩ := bind_ok h
    obtain ⟨_, _, -, h⟩ := bind_ok h
    cases h
    rfl

theorem jumps_of_lowerOtherwise {sink : Sink} {otherwise : Option Block}
    (h : lowerOtherwise set sink otherwise = none) : jumpsOtherwise labels otherwise = [] := by
  cases otherwise with
  | none => rfl
  | some body => cases h

theorem drawnOtherwise_of_cases {g : Graph} {T : List Targets} {sink : Sink}
    {otherwise : Option Block} {c last : NodeId}
    (h : lowerOtherwise set sink otherwise = none ∧ last = c ∨
      lowerOtherwise set sink otherwise ≠ none ∧ ∃ inner, last = inner.entry ∧
        (∀ body, otherwise = some body → body.Drawn set g T sink inner) ∧ g.LeadsTo inner c) :
    drawnOtherwise set g T sink c otherwise last := by
  rcases h with ⟨hnone, hlast⟩ | ⟨hsome, inner, hentry, hinner, hleads⟩
  · cases otherwise with
    | none => exact hlast
    | some body => cases hnone
  · cases otherwise with
    | none => exact absurd rfl hsome
    | some body => exact ⟨inner, hentry, hinner body rfl, hleads⟩

/-- What a design asks of all places of a piece of syntax. -/
def CoversAll (D : Design) (set : Setting) (ps : List Place) : Prop := ∀ p ∈ ps, D.Covers set p

theorem coversAll_append {ps qs : List Place} :
    CoversAll D set (ps ++ qs) ↔ CoversAll D set ps ∧ CoversAll D set qs := List.forall_mem_append

theorem coversAll_cons {p : Place} {ps : List Place} :
    CoversAll D set (p :: ps) ↔ D.Covers set p ∧ CoversAll D set ps := List.forall_mem_cons

/-- A computation that builds a fragment or nothing. -/
def ConstructsOption (D : Design) (labels : List (Option String)) (js : List JumpSite)
    (act : Attempt Body (Option Fragment)) (R : List Targets → Option Fragment → Prop) : Prop :=
  ∀ O left b, Builds D labels O left act b (fun r => (r.map Fragment.exits).getD [] ++ O)
    (leavesOf js ++ left) R

theorem Constructs.some {act : Attempt Body Fragment} {S : List Targets → Option Fragment → Prop}
    (h : Constructs D labels js act R) (hS : ∀ T f, R T f → S T (some f)) :
    ConstructsOption D labels js (some <$> act) S :=
  fun O left b => (h O left b).map (fun _ => rfl) hS

theorem ConstructsOption.afterContext {m : Attempt Context α}
    {S : List Targets → Option Fragment → Prop}
    {next : α → Attempt Body (Option Fragment)}
    (h : ∀ v c c', m c = (.ok v, c') → ConstructsOption D labels js (next v) S) :
    ConstructsOption D labels js (Body.onContext m >>= next) S := fun O left b =>
  .onContext fun v c b₁ hm _ => h v b.context c hm O left b₁

mutual

/-- **Every expression is drawn.** -/
theorem constructs_lowerFlow (set : Setting) (e : Expr) {labels : List (Option String)}
    {sink : Sink}
    (h : CoversAll D set (e.places set.returnsUnit labels sink.isReturned)) :
    Constructs D labels (e.jumps labels) (lowerFlow set sink e)
      fun T f => e.Drawn set D.graph T sink f := by
  cases e with
  | branch pos clauses otherwise =>
    simp only [Expr.places, coversAll_cons, coversAll_append] at h
    refine (constructs_ifChain
      (Q := fun c T n last => drawnClauses set D.graph T sink c n clauses last)
      (fun _ _ _ _ hrun => isNone_of_lowerClauses hrun)
      (fun c O left b => (builds_lowerClauses set clauses h.2.1 none (fun _ => True) (c := c)).imp
        fun T r hr gs hgs => (hr gs hgs).2)
      (constructs_lowerOtherwise set otherwise h.2.2) jumps_of_lowerOtherwise).imp ?_
    rintro T f ⟨c, hnode, hexit, hbranch⟩
    refine ⟨c, hnode, hexit, hbranch.imp (And.imp_left List.isEmpty_iff.1) ?_⟩
    rintro ⟨hempty, last, hclauses, hlast⟩
    refine ⟨fun hnil => ?_, last, hclauses, drawnOtherwise_of_cases hlast⟩
    rw [hnil] at hempty
    cases hempty
  | matchOn pos scrutinee arms =>
    simp only [Expr.places, coversAll_cons] at h
    simp only [lowerFlow, Expr.jumps, Expr.Drawn]
    refine .afterContext fun value c c' hrun => ?_
    rw [jumps_of_run hrun]
    refine (constructs_matchChain (E := arms = [])
      (Q := fun c T n last => arms ≠ [] ∧ drawnArms set D.graph T sink c value (some n) arms last)
      fun c O left b => (builds_lowerArms set arms h.2
        (fun arm t => h.1.sole pos scrutinee arms arm value t rfl (becomes_of_run hrun)) none
        fun _ => True).imp ?_).imp ?_
    · intro T r hr
      cases r with
      | none => exact hr
      | some a => exact fun last hlast => ⟨hr.1, hr.2.2 last hlast⟩
    · rintro T f ⟨c, hnode, hexit, ⟨rfl, hentry⟩ | ⟨last, hlast, hne, harms⟩⟩
      · exact ⟨c, value, none, hnode, becomes_of_run hrun, hexit, .inr rfl, congrArg some hentry⟩
      · refine ⟨c, value, last, hnode, becomes_of_run hrun, hexit, hlast, ?_⟩
        rwa [if_neg (mt List.isEmpty_iff.1 hne)]
  | whileLoop pos label condition body =>
    simp only [Expr.places, coversAll_cons] at h
    simp only [lowerFlow, Expr.jumps, Expr.Drawn]
    split
    · exact constructs_refuse
    · refine .afterContext fun t c c' hrun => ?_
      rw [jumps_of_run hrun]
      refine (constructs_whileLoop (constructs_lowerBlock set body h.2) t).imp ?_
      rintro T f ⟨c, inner, hrest⟩
      exact ⟨t, c, inner, becomes_of_run hrun, hrest⟩
  | loop pos label body =>
    simp only [Expr.places, coversAll_cons] at h
    simp only [lowerFlow, Expr.jumps, Expr.Drawn]
    split
    · exact constructs_refuse
    · exact constructs_plainLoop (constructs_lowerBlock set body h.2)
        (h.1.strict pos label body rfl)
  | forLoop pos label pat iterable body =>
    simp only [Expr.places, coversAll_cons] at h
    simp only [lowerFlow, Expr.jumps, Expr.Drawn]
    split
    · exact constructs_refuse
    · exact constructs_forLoop (constructs_lowerBlock set body h.2) pat iterable
  | block pos label body =>
    simp only [Expr.places, coversAll_cons] at h
    cases label with
    | some label => exact constructs_refuse
    | none => exact (constructs_lowerBlock set body h.2).imp fun T f hf => ⟨rfl, hf⟩
  | unsafeBlock pos body =>
    simp only [Expr.places, coversAll_cons] at h
    exact constructs_lowerBlock set body h.2
  | ret pos value =>
    cases value with
    | none =>
      exact constructs_single _
    | some e =>
      simp only [Expr.places, coversAll_cons] at h
      simp only [lowerFlow, Expr.jumps, jumpsOption, Expr.Drawn]
      by_cases hflow : e.isControlFlow = true
      · simp only [hflow, if_true]
        exact constructs_returnFlow (S := fun sink T f => e.Drawn set D.graph T sink f)
          fun sink hsink => constructs_lowerFlow set e (hsink ▸ h.2)
      · simp only [hflow]
        refine .afterContext fun t c c' hrun => ?_
        rw [jumps_of_run hrun]
        exact (constructs_single _).imp fun T f hf => ⟨t, becomes_of_run hrun, hf⟩
  | leave pos label value =>
    cases value with
    | some e => exact constructs_refuse
    | none => exact (constructs_jump .leave label pos).imp fun T f hf => ⟨rfl, hf⟩
  | next pos label =>
    exact constructs_jump .next label pos
  | assign pos target value =>
    simp only [Expr.places, coversAll_cons] at h
    simp only [lowerFlow, Expr.jumps, Expr.Drawn]
    by_cases hflow : (sink.isDiscard && value.isControlFlow) = true
    · simp only [hflow, if_true]
      refine .afterContext fun t c c' hrun => ?_
      rw [jumps_of_run hrun]
      refine (constructs_lowerFlow set value h.2).imp fun T f hf => ?_
      exact ⟨t, becomes_of_run hrun, hf⟩
    · simp only [hflow]
      exact constructs_plain sink (.assign pos target value)
  | _ =>
    exact constructs_plain sink _

/-- **Every block is drawn.** -/
theorem constructs_lowerBlock (set : Setting) (body : Block) {labels : List (Option String)}
    {sink : Sink} (h : CoversAll D set (body.places set.returnsUnit labels sink.isReturned)) :
    Constructs D labels (body.jumps labels) (lowerBlock set sink body)
      fun T f => body.Drawn set D.graph T sink f := by
  obtain ⟨pos, stmts⟩ := body
  simp only [Block.places] at h
  intro O left b
  refine (builds_lowerStmts set stmts h none).bind fun r b₁ _ _ => ?_
  cases r with
  | some f => exact .pure rfl (fun l hl => hl) fun T _ hstmts => ⟨some f, hstmts, rfl⟩
  | none =>
    exact (constructs_single (.noOp pos) _ _ _).imp fun T f hf hstmts => ⟨none, hstmts, hf⟩

theorem builds_lowerStmts (set : Setting) (stmts : List Stmt) {labels : List (Option String)}
    {sink : Sink} (h : CoversAll D set (placesStmts set.returnsUnit labels sink.isReturned stmts))
    (current : Option Fragment) {O : Ledger} {left : List Nat} {b : Body} :
    Builds D labels ((current.map Fragment.exits).getD [] ++ O) left
      (lowerStmts set sink current stmts) b (fun r => (r.map Fragment.exits).getD [] ++ O)
      (leavesOf (jumpsStmts labels stmts) ++ left)
      fun T r => drawnStmts set D.graph T sink current stmts r := by
  cases stmts with
  | nil =>
    exact .pure rfl (fun l hl => hl) fun T _ => rfl
  | cons s rest =>
    simp only [placesStmts, coversAll_append] at h
    have hs := constructs_lowerStmt set s (isReturned_ite _ sink ▸ h.1)
    refine (hs _ _ _).bind fun here b₁ _ _ => ?_
    cases here with
    | none =>
      exact (builds_lowerStmts set rest h.2 current).mono (mem_leavesOf_next _ _)
        fun T r hrest hs => ⟨none, hs, hrest⟩
    | some f =>
      refine (Builds.chain current f).bind fun joined b₂ _ _ => ?_
      refine (builds_lowerStmts set rest h.2 (some joined)).mono (mem_leavesOf_next _ _) ?_
      intro T r hrest hjoins hs
      exact ⟨some f, hs, joined, hjoins, hrest⟩

theorem constructs_lowerStmt (set : Setting) (s : Stmt) {labels : List (Option String)}
    {sink : Sink} (h : CoversAll D set (s.places set.returnsUnit labels sink.isReturned)) :
    ConstructsOption D labels (s.jumps labels) (lowerStmt set sink s)
      fun T r => s.Drawn set D.graph T sink r := by
  cases s with
  | bind pos pat ascription init diverges =>
    cases init with
    | none =>
      refine .afterContext fun declared _ _ _ => .afterContext fun p _ _ _ => ?_
      refine fun O left b => .get ?_
      refine ConstructsOption.afterContext (fun _ _ _ _ => (constructs_single _).some ?_) O left b
      exact fun T f hf => ⟨f, p, _, _, rfl, hf⟩
    | some e =>
      simp only [Stmt.places] at h
      simp only [lowerStmt, Stmt.jumps, jumpsOption, Stmt.Drawn]
      refine .afterContext fun declared _ _ _ => .afterContext fun p _ _ _ => ?_
      refine fun O left b => .get ?_
      split
      · exact .fails
      · by_cases hflow : e.isControlFlow = true
        · simp only [hflow, if_true]
          refine (constructs_letFlow (S := fun sink T f => e.Drawn set D.graph T sink f)
            fun t => constructs_lowerFlow set e h).some ?_ O left b
          exact fun T f hf => ⟨f, p, _, _, rfl, hf⟩
        · simp only [hflow]
          refine (constructs_letPlain e).some ?_ O left b
          rintro T f ⟨type, t, ht, hf⟩
          exact ⟨f, p, _, type, rfl, t, ht, hf⟩
  | expr e semi =>
    simp only [Stmt.places] at h
    refine (constructs_lowerFlow set e ?_).some fun T f hf => ⟨f, rfl, hf⟩
    cases semi with
    | true => exact h
    | false => exact h
  | useDecl =>
    exact fun O left b => .pure rfl (fun l hl => hl) fun T _ => rfl
  | item pos => exact fun O left b => .fails

theorem builds_lowerClauses (set : Setting) (clauses : List Clause)
    {labels : List (Option String)} {sink : Sink}
    (h : CoversAll D set (placesClauses set.returnsUnit labels sink.isReturned clauses))
    (pending : Option NodeId) (Q : Term → Prop) {c : NodeId} {O : Ledger} {left : List Nat}
    {b : Body} :
    Builds D labels (pending.toList.map (Prod.mk · (.tested Q)) ++ O) left
      (lowerClauses set sink c pending clauses) b
      (fun r => (r.elim (pending.toList.map (Prod.mk · (.tested Q)))
        fun gs => [(gs.last, .tested fun _ => True)]) ++ O)
      (leavesOf (jumpsClauses labels clauses) ++ left)
      fun T r => ∀ gs, r = some gs →
        (∀ p, pending = some p → ⟨p, gs.first, .whenFalse⟩ ∈ D.graph.edges) ∧
          ∀ last, ⟨gs.last, last, .whenFalse⟩ ∈ D.graph.edges →
            drawnClauses set D.graph T sink c gs.first clauses last := by
  cases clauses with
  | nil =>
    exact .pure rfl (fun l hl => hl) fun T _ gs hgs => by cases hgs
  | cons clause rest =>
    obtain ⟨condition, body⟩ := clause
    simp only [placesClauses, coversAll_append] at h
    simp only [lowerClauses, jumpsClauses, drawnClauses]
    refine .onContext fun test _ b₁ hrun _ => ?_
    rw [jumps_of_run hrun]
    refine (Builds.guarded (constructs_lowerBlock set body h.1)).bind fun guard b₂ _ _ => ?_
    refine (builds_lowerClauses set rest h.2 (some guard) (· = test)).bind
      fun others b₃ hothers _ => ?_
    cases others with
    | none =>
      have hrest : rest = [] := List.isEmpty_iff.1 (isNone_of_lowerClauses hothers).symm
      refine .restate (fun _ hx => hx.imp fun _ _ => trivial) (.pure rfl (mem_leavesOf_next _ _) ?_)
      rintro T - - ⟨hpending, hnode, inner, hinner, htaken, hleads⟩ gs hgs
      cases hgs
      refine ⟨hpending, fun last hlast =>
        ⟨test, inner, last, becomes_of_run hrun, ?_, hinner, hleads, ?_⟩⟩
      · exact ⟨hnode, htaken, fun m hm => Option.some.inj hm ▸ hlast⟩
      · rw [hrest, drawnClauses]
    | some gs' =>
      refine .pure rfl (mem_leavesOf_next _ _) ?_
      rintro T - hothers ⟨hpending, hnode, inner, hinner, htaken, hleads⟩ gs hgs
      cases hgs
      obtain ⟨hnext, hchain⟩ := hothers gs' rfl
      refine ⟨hpending, fun last hlast =>
        ⟨test, inner, gs'.first, becomes_of_run hrun, ?_, hinner, hleads, hchain last hlast⟩⟩
      exact ⟨hnode, htaken, fun m hm => Option.some.inj hm ▸ hnext guard rfl⟩

theorem constructs_lowerOtherwise (set : Setting) (otherwise : Option Block)
    {labels : List (Option String)} {sink : Sink}
    (h : CoversAll D set (placesOtherwise set.returnsUnit labels sink.isReturned otherwise))
    (m : Attempt Body Fragment) (hm : lowerOtherwise set sink otherwise = some m) :
    Constructs D labels (jumpsOtherwise labels otherwise) m
      fun T f => ∀ body, otherwise = some body → body.Drawn set D.graph T sink f := by
  cases otherwise with
  | none => cases hm
  | some body =>
    cases hm
    refine (constructs_lowerBlock set body h).imp fun T f hf _ hbody => ?_
    cases hbody
    exact hf

theorem builds_lowerArms (set : Setting) (arms : List Arm) {labels : List (Option String)}
    {sink : Sink} (h : CoversAll D set (placesArms set.returnsUnit labels sink.isReturned arms))
    {value : Term}
    (hsole : ∀ arm t, arms.getLast? = some arm → sink.isReturned = true ∨ arm.takesAll = true →
      arm.TestedBy set value t → D.sole t)
    (pending : Option NodeId) (Q : Term → Prop) {c : NodeId} {O : Ledger} {left : List Nat}
    {b : Body} :
    Builds D labels (pending.toList.map (Prod.mk · (.tested Q)) ++ O) left
      (lowerArms set sink c value pending arms) b
      (fun r => (r.elim (pending.toList.map (Prod.mk · (.tested Q)))
        fun a => [(a.1.last,
          .tested fun t => a.2 = true ∨ sink.isReturned = true → D.sole t)]) ++ O)
      (leavesOf (jumpsArms labels arms) ++ left)
      fun T r => match r with
        | none => arms = []
        | some a => arms ≠ [] ∧
          (∀ p, pending = some p → ⟨p, a.1.first, .whenFalse⟩ ∈ D.graph.edges) ∧
          ∀ last, (∀ m, last = some m → ⟨a.1.last, m, .whenFalse⟩ ∈ D.graph.edges) →
            drawnArms set D.graph T sink c value (some a.1.first) arms last := by
  cases arms with
  | nil =>
    simp only [lowerArms, jumpsArms]
    exact .pure rfl (fun l hl => hl) fun T _ => trivial
  | cons arm rest =>
    obtain ⟨pat, extra, body⟩ := arm
    simp only [placesArms, coversAll_append] at h
    simp only [lowerArms, jumpsArms, drawnArms]
    refine .onContext fun a _ b₁ hrun _ => ?_
    obtain ⟨test, exhaustive⟩ := a
    rw [(jumpless_armTest set labels value pat extra).eq_nil hrun]
    refine (Builds.guarded (constructs_lowerFlow set body h.1)).bind fun guard b₂ _ _ => ?_
    have hsole' (arm : Arm) (t : Term) (hlast : rest.getLast? = some arm) :=
      hsole arm t (by rw [List.getLast?_cons, hlast]; rfl)
    refine (builds_lowerArms set rest h.2 hsole' (some guard) (· = test)).bind
      fun others b₃ hothers _ => ?_
    cases others with
    | none =>
      have hrest : rest = [] := List.isEmpty_iff.1 (isNone_of_lowerArms hothers).symm
      have htest : ∀ t, t = test → exhaustive = true ∨ sink.isReturned = true → D.sole t := by
        rintro t rfl hor
        refine hsole (.mk pat extra body) t (by rw [hrest]; rfl) ?_ (testedBy_of_run hrun)
        rcases hor with rfl | hreturned
        · exact .inr (eq_takesAll_of_armTest hrun).symm
        · exact .inl hreturned
      refine .restate (fun _ hx => hx.imp htest) (.pure rfl (mem_leavesOf_next _ _) ?_)
      rintro T - - ⟨hpending, hnode, inner, hinner, htaken, hleads⟩
      refine ⟨List.cons_ne_nil _ _, hpending, fun last hlast => ?_⟩
      refine ⟨guard, test, inner, last, rfl, testedBy_of_run hrun, ⟨hnode, htaken, hlast⟩, hinner,
        hleads, ?_⟩
      rw [hrest, drawnArms]
    | some a' =>
      obtain ⟨gs', exhaustive'⟩ := a'
      refine .pure rfl (mem_leavesOf_next _ _) ?_
      rintro T - ⟨-, hnext, hchain⟩ ⟨hpending, hnode, inner, hinner, htaken, hleads⟩
      refine ⟨List.cons_ne_nil _ _, hpending, fun last hlast => ?_⟩
      refine ⟨guard, test, inner, some gs'.first, rfl, testedBy_of_run hrun, ⟨hnode, htaken, ?_⟩,
        hinner, hleads, hchain last hlast⟩
      exact fun m hm => Option.some.inj hm ▸ hnext guard rfl

end

end Body

end RustFlow
