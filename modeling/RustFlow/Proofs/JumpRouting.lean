/-
# Jumps and their loops

A body that is lowered is drawn, so each of its jumps leads to the loop it refers to.  A
body with a jump that refers to no loop is not lowered at all: `Body.Reports` says what the
outcome tells about the jumps of a piece of syntax, and that the loops around it are
afterwards the ones that were there, whatever the outcome.
-/

import RustFlow.Proofs.Drawing
import RustFlow.Proofs.Walks

namespace RustFlow

theorem JumpSite.stray_iff {s : JumpSite} : s.Stray ↔ targetDepth s.loops s.label = none := by
  obtain ⟨kind, label, pos, loops⟩ := s
  cases label with
  | none => cases loops <;> simp [Stray, targetDepth]
  | some name =>
    simp only [Stray, targetDepth, List.findIdx?_eq_none_iff, beq_eq_false_iff_ne]
    exact ⟨fun h l hl heq => h (heq ▸ hl), fun h hmem => h _ hmem rfl⟩

instance : DecidablePred JumpSite.Stray := fun _ => decidable_of_iff _ JumpSite.stray_iff.symm

namespace Body

open Attempt Ast

variable {α β : Type} {set : Setting} {scope : Scope} {labels : List (Option String)}
  {js js' : List JumpSite} {act : Attempt Body α} {next : α → Attempt Body β}

/-- What an outcome tells about jumps. -/
structure Verdict (scope : Scope) (js : List JumpSite) (out : Except Error α) : Prop where
  accepted : ∀ a, out = .ok a → ∀ s ∈ js, ¬s.Stray
  refused : ∀ kind place, out = .error (.strayJump kind place) →
    ∃ s ∈ js, s.Stray ∧ s.kind = kind ∧ scope.locate s.pos = place

/-- A computation on syntax with the given jumps, inside loops with the given labels. -/
def Reports (scope : Scope) (labels : List (Option String)) (js : List JumpSite)
    (act : Attempt Body α) : Prop :=
  ∀ b, b.loops.map LoopFrame.label = labels →
    (act b).2.loops.map LoopFrame.label = labels ∧ Verdict scope js (act b).1

theorem Verdict.ok {a : α} (h : ∀ s ∈ js, ¬s.Stray) : Verdict scope js (.ok a : Except Error α) :=
  ⟨fun _ _ => h, fun _ _ heq => by cases heq⟩

theorem Verdict.error {e : Error} (h : e.isJump = false) :
    Verdict scope js (.error e : Except Error α) := by
  refine ⟨fun _ heq => (by cases heq), fun kind place heq => ?_⟩
  cases heq
  cases h

/-- **One computation after another.** -/
theorem Reports.bind (h : Reports scope labels js act)
    (hnext : ∀ a b b', act b = (.ok a, b') → Reports scope labels js' (next a)) :
    Reports scope labels (js ++ js') (act >>= next) := by
  intro b hb
  obtain ⟨hlabels, hv⟩ := h b hb
  rw [bind_run]
  rcases hrun : act b with ⟨e | a, b₁⟩
  · rw [hrun] at hlabels hv
    refine ⟨hlabels, fun _ heq => (by cases heq), fun kind place heq => ?_⟩
    obtain ⟨s, hs, hrest⟩ := hv.refused kind place (congrArg _ (Except.error.inj heq))
    exact ⟨s, List.mem_append_left _ hs, hrest⟩
  · rw [hrun] at hlabels hv
    obtain ⟨hlabels', hv'⟩ := hnext a b b₁ hrun b₁ hlabels
    refine ⟨hlabels', fun r hr => ?_, fun kind place heq => ?_⟩
    · exact List.forall_mem_append.2 ⟨hv.accepted a rfl, hv'.accepted r hr⟩
    · obtain ⟨s, hs, hrest⟩ := hv'.refused kind place heq
      exact ⟨s, List.mem_append_right _ hs, hrest⟩

theorem Reports.andThen (h : Reports scope labels js act)
    (hnext : ∀ a, Reports scope labels [] (next a)) : Reports scope labels js (act >>= next) :=
  List.append_nil js ▸ h.bind fun a _ _ _ => hnext a

theorem Reports.map (h : Reports scope labels js act) (f : α → β) :
    Reports scope labels js (f <$> act) := by
  intro b hb
  obtain ⟨hlabels, hv⟩ := h b hb
  rw [map_run]
  refine ⟨hlabels, fun r hr => ?_, fun kind place heq => ?_⟩
  · rcases hout : (act b).1 with e | a
    · rw [hout] at hr
      cases hr
    · exact hv.accepted a hout
  · rcases hout : (act b).1 with e | a
    · rw [hout] at heq
      exact hv.refused kind place (hout.trans (congrArg _ (Except.error.inj heq)))
    · rw [hout] at heq
      cases heq

theorem reports_step
    (h : ∀ b, ∃ a b', act b = (.ok a, b') ∧
      b'.loops.map LoopFrame.label = b.loops.map LoopFrame.label) :
    Reports scope labels [] act := by
  intro b hb
  obtain ⟨a, b', hrun, hlabels⟩ := h b
  rw [hrun]
  exact ⟨hlabels.trans hb, .ok fun s hs => by cases hs⟩

theorem reports_pure (a : α) : Reports scope labels [] (pure a) :=
  reports_step fun b => ⟨a, b, rfl, rfl⟩

theorem reports_get : Reports scope labels [] (get : Attempt Body Body) :=
  reports_step fun b => ⟨b, b, rfl, rfl⟩

theorem reports_add (s : Statement) : Reports scope labels [] (add s) :=
  reports_step fun _ => ⟨_, _, rfl, rfl⟩

theorem reports_edge (x y : NodeId) (k : EdgeKind) : Reports scope labels [] (edge x y k) :=
  reports_step fun _ => ⟨_, _, rfl, rfl⟩

theorem reports_freshName : Reports scope labels [] (freshName set) :=
  reports_step fun _ => ⟨_, _, rfl, rfl⟩

theorem reports_refuse (what : Construct) (pos : Position) :
    Reports scope labels js (set.scope.refuse what pos : Attempt Body α) :=
  fun _ hb => ⟨hb, .error rfl⟩

theorem reports_onContext {m : Attempt Context α} (h : Jumpless js m) :
    Reports scope labels js (onContext m) := by
  intro b hb
  refine ⟨hb, ?_⟩
  have hs := h b.context
  show Verdict scope js (m b.context).1
  generalize (m b.context).1 = out at hs
  cases out with
  | ok a =>
    rw [show js = [] from hs]
    exact .ok fun s hs => by cases hs
  | error e => exact .error hs

theorem reports_connect (exit : Option NodeId) (n : NodeId) :
    Reports scope labels [] (connect exit n) := by
  cases exit with
  | none => exact reports_pure ()
  | some x => exact reports_edge x n _

theorem reports_edges (ns : List NodeId) (n : NodeId) :
    Reports scope labels [] (ns.forM fun x => edge x n .sequential) := by
  induction ns with
  | nil => exact reports_pure ()
  | cons x ns ih => exact (reports_edge x n _).bind fun _ _ _ _ => ih

theorem reports_resolveJumps (frame : LoopFrame) (l n : NodeId) :
    Reports scope labels [] (resolveJumps frame l n) :=
  (reports_edges _ _).bind fun _ _ _ _ => reports_edges _ _

theorem reports_single (s : Statement) : Reports scope labels [] (single s) :=
  (reports_add s).bind fun _ _ _ _ => reports_pure _

theorem reports_chain (previous : Option Fragment) (f : Fragment) :
    Reports scope labels [] (chain previous f) := by
  rcases previous with _ | ⟨entry, _ | x⟩
  · exact reports_pure f
  · exact reports_pure _
  · exact (reports_edge _ _ _).bind fun _ _ _ _ => reports_pure _

theorem reports_sendTo (sink : Sink) (t : Term) : Reports scope labels [] (sendTo sink t) := by
  cases sink with
  | returned => exact (reports_add _).bind fun _ _ _ _ => reports_pure _
  | _ => exact reports_single _

theorem reports_plain (sink : Sink) (e : Expr) :
    Reports scope labels (e.jumps labels) (plain set sink e) :=
  (reports_onContext (set.scope.jumpless_lowerExpr labels e)).andThen fun t => reports_sendTo sink t

/-- **A jump is refused exactly if it is stray.** -/
theorem reports_jump (kind : Jump) (label : Option String) (pos : Position) :
    Reports scope labels [⟨kind, label, pos, labels⟩] (jump scope kind label pos) := by
  intro b hb
  have htarget : targetLoop b.loops label = targetDepth labels label := by rw [targetLoop_eq, hb]
  rw [jump, Attempt.bind_run, Attempt.get_run]
  dsimp only
  cases hi : targetLoop b.loops label with
  | none =>
    rw [hi] at htarget
    refine ⟨hb, fun _ heq => (by cases heq), fun kind' place heq => ?_⟩
    cases heq
    exact ⟨_, List.mem_singleton_self _, JumpSite.stray_iff.2 htarget.symm, rfl, rfl⟩
  | some i =>
    rw [hi] at htarget
    refine ⟨(labels_withHop _ i kind _).trans hb, .ok fun s hs hstray => ?_⟩
    rw [List.mem_singleton.1 hs, JumpSite.stray_iff, ← htarget] at hstray
    cases hstray

theorem reports_inLoop {label : Option String} {body : Attempt Body Fragment}
    (h : Reports scope (label :: labels) js body) :
    Reports scope labels js (inLoop label body) := by
  intro b hb
  obtain ⟨hlabels, hv⟩ := h (b.inside (.ofLabel label)) (congrArg (label :: ·) hb)
  rcases hrun : body (b.inside (.ofLabel label)) with ⟨out, after⟩
  rw [hrun] at hlabels hv
  obtain ⟨frame, frames, hloops⟩ : ∃ frame frames, after.loops = frame :: frames :=
    List.exists_cons_of_ne_nil fun hnil => by
      dsimp only at hlabels
      rw [hnil] at hlabels
      cases hlabels
  rw [inLoop_run hrun hloops]
  dsimp only at hlabels
  rw [hloops] at hlabels
  refine ⟨(List.cons.inj hlabels).2, ?_⟩
  cases out with
  | ok f => exact .ok (hv.accepted f rfl)
  | error e =>
    exact ⟨fun _ heq => (by cases heq), fun kind place heq =>
      hv.refused kind place (congrArg _ (Except.error.inj heq))⟩

/-! ### Constructs -/

theorem reports_guarded {c : NodeId} {pending : Option NodeId} {t : Term}
    {body : Attempt Body Fragment} (h : Reports scope labels js body) :
    Reports scope labels js (guarded c pending t body) := by
  refine (reports_add _).bind fun n _ _ _ => ?_
  have hrest : Reports scope labels js (do
      let taken ← body
      edge n taken.entry .whenTrue
      connect taken.exit c
      return n) :=
    h.andThen fun _ => (reports_edge _ _ _).bind fun _ _ _ _ =>
      (reports_connect _ _).bind fun _ _ _ _ => reports_pure _
  cases pending with
  | none => exact hrest
  | some p => exact (reports_edge _ _ _).bind fun _ _ _ _ => hrest

theorem reports_ifChain {pos : Position} {clauses : NodeId → Attempt Body (Option Guards)}
    {otherwise : Option (Attempt Body Fragment)} {empty : Bool}
    (hempty : ∀ c b r b', clauses c b = (.ok r, b') → r.isNone = empty)
    (hclauses : ∀ c, Reports scope labels js (clauses c))
    (hother : ∀ m, otherwise = some m → Reports scope labels js' m)
    (hnone : otherwise = none → js' = []) :
    Reports scope labels (js ++ if empty then [] else js') (ifChain pos clauses otherwise) := by
  refine (reports_add _).bind fun c _ _ _ => (hclauses c).bind fun r b b' hrun => ?_
  have hr := hempty _ _ _ _ hrun
  cases r with
  | none =>
    obtain rfl : empty = true := hr.symm
    exact reports_pure _
  | some gs =>
    obtain rfl : empty = false := hr.symm
    cases otherwise with
    | none =>
      obtain rfl := hnone rfl
      exact (reports_edge _ _ _).bind fun _ _ _ _ => reports_pure _
    | some m =>
      exact (hother m rfl).andThen fun _ => (reports_edge _ _ _).bind fun _ _ _ _ =>
        (reports_connect _ _).bind fun _ _ _ _ => reports_pure _

theorem reports_matchChain {pos : Position} {sink : Sink}
    {arms : NodeId → Attempt Body (Option (Guards × Bool))}
    (harms : ∀ c, Reports scope labels js (arms c)) :
    Reports scope labels js (matchChain pos sink arms) := by
  refine (reports_add _).bind fun c _ _ _ => (harms c).andThen fun r => ?_
  cases r with
  | none => exact reports_pure _
  | some a =>
    obtain ⟨gs, exhaustive⟩ := a
    by_cases hx : (!exhaustive && !sink.isReturned) = true
    · simp only [hx, if_true]
      exact (reports_edge _ _ _).bind fun _ _ _ _ => reports_get.bind fun _ _ _ _ => reports_pure _
    · simp only [hx]
      exact reports_get.bind fun _ _ _ _ => reports_pure _

section Loops

variable {label : Option String} {pos : Position} {body : Attempt Body Fragment}
  (h : Reports scope (label :: labels) js body)

include h

theorem reports_whileLoop (t : Term) : Reports scope labels js (whileLoop pos label t body) :=
  (reports_add _).bind fun _ _ _ _ => (reports_add _).bind fun _ _ _ _ =>
    (reports_inLoop h).andThen fun _ => (reports_edge _ _ _).bind fun _ _ _ _ =>
      (reports_connect _ _).bind fun _ _ _ _ => (reports_edge _ _ _).bind fun _ _ _ _ =>
        (reports_resolveJumps _ _ _).bind fun _ _ _ _ => reports_pure _

theorem reports_plainLoop : Reports scope labels js (plainLoop pos label body) := by
  refine (reports_inLoop h).andThen fun r => (reports_connect _ _).bind fun _ _ _ _ => ?_
  obtain ⟨inner, frame⟩ := r
  by_cases hnone : frame.breaks.isEmpty = true
  · simp only [hnone, if_true]
    exact (reports_resolveJumps _ _ _).bind fun _ _ _ _ => reports_pure _
  · simp only [hnone]
    exact (reports_add _).bind fun _ _ _ _ =>
      (reports_resolveJumps _ _ _).bind fun _ _ _ _ => reports_pure _

theorem reports_forLoop (pat : Pat) (iterable : Expr) :
    Reports scope labels (iterable.jumps labels ++ js)
      (forLoop set pos label pat iterable body) := by
  refine reports_freshName.bind fun _ _ _ _ => ?_
  refine (reports_onContext (set.scope.jumpless_lowerExpr labels iterable)).bind fun _ _ _ _ => ?_
  refine (reports_add _).bind fun _ _ _ _ => ?_
  refine (reports_onContext (jumpless_modify _)).bind fun _ _ _ _ => ?_
  refine (reports_onContext (set.scope.jumpless_lowerPat pat)).bind fun _ _ _ _ => ?_
  refine (reports_onContext (jumpless_modify _)).bind fun _ _ _ _ => ?_
  refine reports_get.bind fun _ _ _ _ => (reports_add _).bind fun _ _ _ _ => ?_
  refine (reports_edge _ _ _).bind fun _ _ _ _ => (reports_add _).bind fun _ _ _ _ => ?_
  refine (reports_edge _ _ _).bind fun _ _ _ _ => (reports_add _).bind fun _ _ _ _ => ?_
  refine (reports_inLoop h).andThen fun _ => reports_get.bind fun _ _ _ _ => ?_
  refine (reports_add _).bind fun _ _ _ _ => (reports_edge _ _ _).bind fun _ _ _ _ => ?_
  refine (reports_edge _ _ _).bind fun _ _ _ _ => (reports_connect _ _).bind fun _ _ _ _ => ?_
  refine (reports_edge _ _ _).bind fun _ _ _ _ => ?_
  exact (reports_resolveJumps _ _ _).bind fun _ _ _ _ => reports_pure _

end Loops

theorem reports_letFlow {pos : Position} {p : Pattern} {ascription : Option String}
    {declared : Option TypeId} {flow : Sink → Attempt Body Fragment}
    (h : ∀ sink, Reports scope labels js (flow sink)) :
    Reports scope labels js (letFlow set pos p ascription declared flow) := by
  cases p with
  | binding v =>
    exact (reports_single _).bind fun _ _ _ _ => (h _).andThen fun _ =>
      (reports_onContext (jumpless_modify _)).bind fun _ _ _ _ => reports_chain _ _
  | _ => exact reports_refuse _ _

theorem reports_letPlain {pos : Position} {p : Pattern} {ascription : Option String}
    {declared : Option TypeId} (e : Expr) :
    Reports scope labels (e.jumps labels) (letPlain set pos p ascription declared e) :=
  (reports_onContext (set.scope.jumpless_lowerExpr labels e)).andThen fun _ =>
    (reports_onContext (jumpless_modify _)).bind fun _ _ _ _ => reports_single _

theorem reports_returnFlow {pos : Position} {flow : Sink → Attempt Body Fragment}
    (h : ∀ sink, Reports scope labels js (flow sink)) :
    Reports scope labels js (returnFlow set pos flow) := by
  unfold returnFlow
  split
  · exact (h _).andThen fun _ => (reports_single _).bind fun _ _ _ _ => reports_chain _ _
  · exact h _

mutual

/-- **The outcome of an expression tells about all jumps in it.** -/
theorem reports_lowerFlow (set : Setting) (e : Expr) (labels : List (Option String)) (sink : Sink) :
    Reports set.scope labels (e.jumps labels) (lowerFlow set sink e) := by
  cases e with
  | branch pos clauses otherwise =>
    exact reports_ifChain (fun _ _ _ _ hrun => isNone_of_lowerClauses hrun)
      (fun c => reports_lowerClauses set clauses labels sink c none)
      (reports_lowerOtherwise set otherwise labels sink) jumps_of_lowerOtherwise
  | matchOn pos scrutinee arms =>
    refine (reports_onContext (set.scope.jumpless_lowerExpr labels scrutinee)).bind
      fun value _ _ _ => ?_
    exact reports_matchChain fun c => reports_lowerArms set arms labels sink c value none
  | whileLoop pos label condition body =>
    simp only [lowerFlow, Expr.jumps]
    split
    · exact reports_refuse _ _
    · refine (reports_onContext (set.scope.jumpless_lowerExpr labels condition)).bind
        fun t _ _ _ => ?_
      exact reports_whileLoop (reports_lowerBlock set body (label :: labels) .discard) t
  | loop pos label body =>
    simp only [lowerFlow, Expr.jumps]
    split
    · exact reports_refuse _ _
    · exact reports_plainLoop (reports_lowerBlock set body (label :: labels) .discard)
  | forLoop pos label pat iterable body =>
    simp only [lowerFlow, Expr.jumps]
    split
    · exact reports_refuse _ _
    · exact reports_forLoop (reports_lowerBlock set body (label :: labels) .discard) pat iterable
  | block pos label body =>
    cases label with
    | some label => exact reports_refuse _ _
    | none => exact reports_lowerBlock set body labels sink
  | unsafeBlock pos body =>
    exact reports_lowerBlock set body labels sink
  | ret pos value =>
    cases value with
    | none =>
      exact reports_single _
    | some e =>
      simp only [lowerFlow, Expr.jumps, jumpsOption]
      split
      · exact reports_returnFlow fun sink => reports_lowerFlow set e labels sink
      · exact (reports_onContext (set.scope.jumpless_lowerExpr labels e)).andThen
          fun _ => reports_single _
  | leave pos label value =>
    cases value with
    | some e => exact reports_refuse _ _
    | none => exact reports_jump .leave label pos
  | next pos label =>
    exact reports_jump .next label pos
  | assign pos target value =>
    simp only [lowerFlow]
    split
    · simp only [Expr.jumps]
      refine (reports_onContext (set.scope.jumpless_lowerExpr labels target)).bind fun t _ _ _ => ?_
      exact reports_lowerFlow set value labels (.assigned t)
    · exact reports_plain sink (.assign pos target value)
  | _ =>
    exact reports_plain sink _

theorem reports_lowerBlock (set : Setting) (body : Block) (labels : List (Option String))
    (sink : Sink) : Reports set.scope labels (body.jumps labels) (lowerBlock set sink body) := by
  obtain ⟨pos, stmts⟩ := body
  refine (reports_lowerStmts set stmts labels sink none).andThen fun r => ?_
  cases r with
  | some f => exact reports_pure f
  | none => exact reports_single _

theorem reports_lowerStmts (set : Setting) (stmts : List Stmt) (labels : List (Option String))
    (sink : Sink) (current : Option Fragment) :
    Reports set.scope labels (jumpsStmts labels stmts) (lowerStmts set sink current stmts) := by
  cases stmts with
  | nil =>
    exact reports_pure current
  | cons s rest =>
    refine (reports_lowerStmt set s labels _).bind fun here _ _ _ => ?_
    cases here with
    | none => exact reports_lowerStmts set rest labels sink current
    | some f =>
      exact (reports_chain current f).bind fun joined _ _ _ =>
        reports_lowerStmts set rest labels sink (some joined)

theorem reports_lowerStmt (set : Setting) (s : Stmt) (labels : List (Option String)) (sink : Sink) :
    Reports set.scope labels (s.jumps labels) (lowerStmt set sink s) := by
  cases s with
  | bind pos pat ascription init diverges =>
    have hdeclared : Reports set.scope labels [] (onContext (resolveAscription set ascription)) :=
      reports_onContext (jumpless_resolveAscription set ascription)
    have hpat : Reports set.scope labels [] (onContext (set.scope.lowerPat pat)) :=
      reports_onContext (set.scope.jumpless_lowerPat pat)
    cases init with
    | none =>
      refine hdeclared.bind fun _ _ _ _ => hpat.bind fun p _ _ _ => ?_
      refine reports_get.bind fun _ _ _ _ => ?_
      exact (reports_onContext (jumpless_modify _)).bind fun _ _ _ _ => (reports_single _).map _
    | some e =>
      simp only [lowerStmt, Stmt.jumps, jumpsOption]
      refine hdeclared.bind fun _ _ _ _ => hpat.bind fun p _ _ _ => ?_
      refine reports_get.bind fun _ _ _ _ => ?_
      split
      · exact reports_refuse _ _
      · split
        · exact (reports_letFlow fun sink => reports_lowerFlow set e labels sink).map _
        · exact (reports_letPlain e).map _
  | expr e semi =>
    exact (reports_lowerFlow set e labels _).map _
  | useDecl =>
    exact reports_pure none
  | item pos =>
    exact reports_refuse _ _

theorem reports_lowerClauses (set : Setting) (clauses : List Clause)
    (labels : List (Option String)) (sink : Sink) (c : NodeId) (pending : Option NodeId) :
    Reports set.scope labels (jumpsClauses labels clauses)
      (lowerClauses set sink c pending clauses) := by
  cases clauses with
  | nil =>
    exact reports_pure none
  | cons clause rest =>
    obtain ⟨condition, body⟩ := clause
    simp only [lowerClauses, jumpsClauses, List.append_assoc]
    refine (reports_onContext (set.scope.jumpless_lowerExpr labels condition)).bind
      fun test _ _ _ => ?_
    refine (reports_guarded (reports_lowerBlock set body labels sink)).bind fun guard _ _ _ => ?_
    exact (reports_lowerClauses set rest labels sink c (some guard)).andThen fun _ => reports_pure _

theorem reports_lowerOtherwise (set : Setting) (otherwise : Option Block)
    (labels : List (Option String)) (sink : Sink) (m : Attempt Body Fragment)
    (hm : lowerOtherwise set sink otherwise = some m) :
    Reports set.scope labels (jumpsOtherwise labels otherwise) m := by
  cases otherwise with
  | none => cases hm
  | some body =>
    cases hm
    exact reports_lowerBlock set body labels sink

theorem reports_lowerArms (set : Setting) (arms : List Arm) (labels : List (Option String))
    (sink : Sink) (c : NodeId) (value : Term) (pending : Option NodeId) :
    Reports set.scope labels (jumpsArms labels arms) (lowerArms set sink c value pending arms) := by
  cases arms with
  | nil =>
    exact reports_pure none
  | cons arm rest =>
    obtain ⟨pat, extra, body⟩ := arm
    simp only [lowerArms, jumpsArms, List.append_assoc]
    refine (reports_onContext (jumpless_armTest set labels value pat extra)).bind
      fun test _ _ _ => ?_
    refine (reports_guarded (reports_lowerFlow set body labels sink)).bind fun guard _ _ _ => ?_
    exact (reports_lowerArms set rest labels sink c value (some guard)).andThen
      fun _ => reports_pure _

end

end Body

namespace Cfg

/-- **Jumps reach the loops they refer to.**  A body that is lowered is drawn in its graph,
with each `break` and `continue` a hop whose only edge leads to the target of the innermost
loop around it, or of the innermost one with its label.  A body with a jump that has no such
loop is refused, and an error about a jump points at one.  Whatever the outcome, the loops
around are the same as before. -/
theorem lowerBody_jumps (config : Config) (scope : Scope) (sig : Signature) (body : Ast.Block)
    (arena : Arena) :
    let set : Setting := ⟨scope, config.freshStem, sig.returnsUnit⟩
    let out := lowerBody config scope sig body arena
    (∀ f, out.1 = .ok f →
      body.Drawn set out.2.graph [] (if sig.returnsUnit then .discard else .returned) f) ∧
    ((∃ s ∈ body.jumps [], s.Stray) → ∃ e, out.1 = .error e) ∧
    (∀ kind place, out.1 = .error (.strayJump kind place) →
      ∃ s ∈ body.jumps [], s.Stray ∧ s.kind = kind ∧ scope.locate s.pos = place) ∧
    out.2.loops = [] ∧
    ∀ b, (Body.lower set body b).2.loops.map LoopFrame.label = b.loops.map LoopFrame.label := by
  intro set out
  have hreports (labels : List (Option String)) :=
    Body.reports_lowerBlock set body labels (if sig.returnsUnit then .discard else .returned)
  obtain ⟨hloops, hverdict⟩ := hreports [] (.start (sig.context arena)) rfl
  refine ⟨fun f hf => ?_, fun ⟨s, hs, hstray⟩ => ?_, hverdict.refused, List.map_eq_nil_iff.1 hloops,
    fun b => (hreports _ b rfl).1⟩
  · let D : Design := ⟨False, fun _ => True, out.2.graph⟩
    have hcovers (p : Place) : D.Covers set p :=
      ⟨fun _ _ _ _ hstrict => hstrict.elim, fun _ _ _ _ _ _ _ _ _ _ _ => trivial⟩
    have hbuilds : Body.Constructs D [] (body.jumps []) (Body.lower set body) fun T f =>
        body.Drawn set D.graph T (if sig.returnsUnit then .discard else .returned) f :=
      Body.constructs_lowerBlock set body fun p _ => hcovers p
    have hrun : out = (.ok f, out.2) := Prod.ext hf rfl
    obtain ⟨-, hheld, hdrawn⟩ := hbuilds [] [] _ f out.2 hrun (Body.held_start D _)
    exact (hdrawn [] rfl hheld.completes).1
  · cases hout : out.1 with
    | error e => exact ⟨e, rfl⟩
    | ok f => exact absurd hstray (hverdict.accepted f hout s hs)

/-- `{ 'a: loop { 'a: while true { break 'a; } continue label; } }`, where the inner label
hides the outer one. -/
def hiddenLabel (label : Option String) : Ast.Block :=
  let block (stmts : List Ast.Stmt) : Ast.Block := .mk default stmts
  let inner : Ast.Expr := .whileLoop default (some "a") (.literal default (.bool true))
    (block [.expr (.leave default (some "a") none) true])
  block [.expr (.loop default (some "a")
    (block [.expr inner false, .expr (.next ⟨3, 7⟩ label) true])) false]

theorem lowerBody_jumps_hiddenLabel :
    let scope : Scope := ⟨default, none, [], true, "a.rs"⟩
    let sig : Signature := ⟨"f", default, default, [], .unit, none⟩
    let set : Setting := ⟨scope, "__iter", true⟩
    (∃ f, (lowerBody {} scope sig (hiddenLabel none) .empty).1 = .ok f ∧
      (hiddenLabel none).Drawn set (lowerBody {} scope sig (hiddenLabel none) .empty).2.graph []
        .discard f) ∧
      ∃ e, (lowerBody {} scope sig (hiddenLabel (some "b")) .empty).1 = .error e := by
  intro scope sig set
  constructor
  · have hok : (lowerBody {} scope sig (hiddenLabel none) .empty).1.toOption.any (fun _ => true) =
        true := by decide +kernel
    obtain ⟨f, hf, -⟩ := exists_of_any hok
    exact ⟨f, hf, (lowerBody_jumps {} scope sig (hiddenLabel none) .empty).1 f hf⟩
  · exact (lowerBody_jumps {} scope sig (hiddenLabel (some "b")) .empty).2.1 (by decide)

end Cfg

end RustFlow
