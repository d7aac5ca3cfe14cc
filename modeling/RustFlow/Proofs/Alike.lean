/-
# Terms and graphs that differ in type indices only

Two terms are *alike* under a relation of types if they are built in the same way,
with the same names, texts and places, and carry related types.  The same is said of
patterns, statements and graphs.  Alike things have the same text, and every
operation on graphs takes alike graphs to alike graphs: it may look at the kind of a
statement but never at a type.
-/

import RustFlow.Cfg.Closing
import RustFlow.Proofs.Interning
import RustFlow.Proofs.Pointwise

namespace RustFlow

variable {R S : TypeId → TypeId → Prop}

mutual

/-- The same term with related types. -/
inductive Term.Alike (R : TypeId → TypeId → Prop) : Term → Term → Prop where
  | mk {f g : TermForm} {s t : TypeId} (pos : Position) : f.Alike R g → R s t →
      Term.Alike R (.mk f s pos) (.mk g t pos)

inductive TermForm.Alike (R : TypeId → TypeId → Prop) : TermForm → TermForm → Prop where
  | literal (value : Literal) : TermForm.Alike R (.literal value) (.literal value)
  | var (v : Variable) : TermForm.Alike R (.var v) (.var v)
  | path (path : String) : TermForm.Alike R (.path path) (.path path)
  | macroCall (path tokens : String) : TermForm.Alike R (.macroCall path tokens) (.macroCall path tokens)
  | exhausted : TermForm.Alike R .exhausted .exhausted
  | binary (op : BinaryOp) {l l' r r' : Term} : l.Alike R l' → r.Alike R r' →
      TermForm.Alike R (.binary op l r) (.binary op l' r')
  | unary (op : UnaryOp) {e e' : Term} : e.Alike R e' → TermForm.Alike R (.unary op e) (.unary op e')
  | borrow (mutable : Bool) {e e' : Term} : e.Alike R e' →
      TermForm.Alike R (.borrow mutable e) (.borrow mutable e')
  | cast {e e' : Term} (target : String) : e.Alike R e' →
      TermForm.Alike R (.cast e target) (.cast e' target)
  | range {a a' b b' : Option Term} (inclusive : Bool) : Option.Rel (Term.Alike R) a a' →
      Option.Rel (Term.Alike R) b b' → TermForm.Alike R (.range a b inclusive) (.range a' b' inclusive)
  | declare {p p' : Pattern} (ascription : Option String) {init init' : Option Term} : p.Alike R p' →
      Option.Rel (Term.Alike R) init init' →
      TermForm.Alike R (.declare p ascription init) (.declare p' ascription init')
  | assign {t t' v v' : Term} : t.Alike R t' → v.Alike R v' →
      TermForm.Alike R (.assign t v) (.assign t' v')
  | test {p p' : Pattern} {e e' : Term} : p.Alike R p' → e.Alike R e' →
      TermForm.Alike R (.test p e) (.test p' e')
  | pattern {p p' : Pattern} : p.Alike R p' → TermForm.Alike R (.pattern p) (.pattern p')
  | index {b b' i i' : Term} : b.Alike R b' → i.Alike R i' →
      TermForm.Alike R (.index b i) (.index b' i')
  | tupleField {b b' : Term} (idx : Nat) : b.Alike R b' →
      TermForm.Alike R (.tupleField b idx) (.tupleField b' idx)
  | field {b b' : Term} (name : String) : b.Alike R b' →
      TermForm.Alike R (.field b name) (.field b' name)
  | call (target : String) (qualifier : Option String) (method : Bool) {args args' : List Term} :
      List.Forall₂ (Term.Alike R) args args' →
      TermForm.Alike R (.call target qualifier method args) (.call target qualifier method args')
  | structLit (name : String) {vs vs' : List Term} : List.Forall₂ (Term.Alike R) vs vs' →
      TermForm.Alike R (.structLit name vs) (.structLit name vs')
  | enumLit (name variant : String) (payload : Payload) {vs vs' : List Term} :
      List.Forall₂ (Term.Alike R) vs vs' →
      TermForm.Alike R (.enumLit name variant payload vs) (.enumLit name variant payload vs')
  | tuple {vs vs' : List Term} : List.Forall₂ (Term.Alike R) vs vs' →
      TermForm.Alike R (.tuple vs) (.tuple vs')
  | array {vs vs' : List Term} : List.Forall₂ (Term.Alike R) vs vs' →
      TermForm.Alike R (.array vs) (.array vs')
  | arrayRepeat {e e' : Term} (length : Nat) : e.Alike R e' →
      TermForm.Alike R (.arrayRepeat e length) (.arrayRepeat e' length)

/-- The same pattern with related types. -/
inductive Pattern.Alike (R : TypeId → TypeId → Prop) : Pattern → Pattern → Prop where
  | binding (v : Variable) : Pattern.Alike R (.binding v) (.binding v)
  | reference (mutable : Bool) {p p' : Pattern} : p.Alike R p' →
      Pattern.Alike R (.reference mutable p) (.reference mutable p')
  | struct (name : String) {s t : TypeId} {fs fs' : List FieldPattern} (rest : Bool) : R s t →
      List.Forall₂ (FieldPattern.Alike R) fs fs' →
      Pattern.Alike R (.struct name s fs rest) (.struct name t fs' rest)
  | tupleStruct (path : String) {ps ps' : List Pattern} : List.Forall₂ (Pattern.Alike R) ps ps' →
      Pattern.Alike R (.tupleStruct path ps) (.tupleStruct path ps')
  | path (path : String) : Pattern.Alike R (.path path) (.path path)
  | tuple {ps ps' : List Pattern} : List.Forall₂ (Pattern.Alike R) ps ps' →
      Pattern.Alike R (.tuple ps) (.tuple ps')
  | literal {v v' : Term} : v.Alike R v' → Pattern.Alike R (.literal v) (.literal v')
  | range {a a' b b' : Option Term} (inclusive : Bool) : Option.Rel (Term.Alike R) a a' →
      Option.Rel (Term.Alike R) b b' → Pattern.Alike R (.range a b inclusive) (.range a' b' inclusive)
  | alternatives {ps ps' : List Pattern} : List.Forall₂ (Pattern.Alike R) ps ps' →
      Pattern.Alike R (.alternatives ps) (.alternatives ps')
  | rest : Pattern.Alike R .rest .rest
  | wildcard : Pattern.Alike R .wildcard .wildcard

inductive FieldPattern.Alike (R : TypeId → TypeId → Prop) : FieldPattern → FieldPattern → Prop where
  | mk (name : String) {p p' : Pattern} : p.Alike R p' →
      FieldPattern.Alike R (.mk name p) (.mk name p')

end

/-! ### Under a weaker relation -/

section Mono

variable (hRS : ∀ s t, R s t → S s t)
include hRS

theorem TermForm.Alike.mono {f f' : TermForm} (h : f.Alike R f') : f.Alike S f' := by
  apply @TermForm.Alike.rec R (fun t t' _ => t.Alike S t') (fun f f' _ => f.Alike S f')
    (fun p p' _ => p.Alike S p') (fun f f' _ => f.Alike S f')
    (fun o o' _ => Option.Rel (Term.Alike S) o o')
    (fun ts ts' _ => List.Forall₂ (Term.Alike S) ts ts')
    (fun fs fs' _ => List.Forall₂ (FieldPattern.Alike S) fs fs')
    (fun ps ps' _ => List.Forall₂ (Pattern.Alike S) ps ps')
  case t => exact h
  all_goals intros
  all_goals constructor
  all_goals first | assumption | exact hRS _ _ ‹_›

theorem Term.Alike.mono {t t' : Term} (h : t.Alike R t') : t.Alike S t' := by
  cases h with
  | mk pos hf ht => exact .mk pos (hf.mono hRS) (hRS _ _ ht)

theorem Pattern.Alike.mono {p p' : Pattern} (h : p.Alike R p') : p.Alike S p' := by
  cases (TermForm.Alike.pattern h).mono hRS with
  | pattern h => exact h

theorem terms_mono {ts ts' : List Term} (h : List.Forall₂ (Term.Alike R) ts ts') :
    List.Forall₂ (Term.Alike S) ts ts' := h.imp fun _ _ => Term.Alike.mono hRS

theorem option_mono {o o' : Option Term} (h : Option.Rel (Term.Alike R) o o') :
    Option.Rel (Term.Alike S) o o' := by
  cases h with
  | none => exact .none
  | some h => exact .some (h.mono hRS)

end Mono

/-! ### Texts -/

/-- The text of a field of a struct pattern. -/
def FieldPattern.render : FieldPattern → String
  | .mk name p => name ++ ": " ++ p.render

theorem FieldPattern.render_mk (name : String) (p : Pattern) :
    (FieldPattern.mk name p).render = name ++ ": " ++ p.render := rfl

theorem renderFields_cons (f : FieldPattern) (fs : List FieldPattern) :
    renderFields (f :: fs) = f.render :: renderFields fs := by
  obtain ⟨n, p⟩ := f
  rfl

theorem renderOption_eq (o : Option Term) : renderOption o = (o.map Term.render).getD "" := by
  cases o <;> rfl

theorem TermForm.Alike.render_eq {f f' : TermForm} (h : f.Alike R f') : f.render = f'.render := by
  apply @TermForm.Alike.rec R (fun t t' _ => t.render = t'.render)
    (fun f f' _ => f.render = f'.render) (fun p p' _ => p.render = p'.render)
    (fun f f' _ => f.render = f'.render) (fun o o' _ => o.map Term.render = o'.map Term.render)
    (fun ts ts' _ => renderAll ts = renderAll ts')
    (fun fs fs' _ => renderFields fs = renderFields fs')
    (fun ps ps' _ => renderPatterns ps = renderPatterns ps')
  case t => exact h
  case declare =>
    intro p p' text init init' _ hi hp ih
    cases hi with
    | none => simp only [TermForm.render, hp]
    | some => simp only [TermForm.render, hp, Option.some.inj ih]
  case reference =>
    -- the text of a reference looks at what is behind it
    intro m p p' hp ih
    cases m with
    | true => simp only [Pattern.render, ih]
    | false =>
      cases hp with
      | binding => rfl
      | _ => exact congrArg ("&" ++ ·) ih
  all_goals intros
  all_goals simp only [Term.render, TermForm.render, Pattern.render, FieldPattern.render_mk, renderAll,
    renderOption_eq, renderPatterns, renderFields_cons, Option.map_some, *]

theorem Term.Alike.render_eq {t t' : Term} (h : t.Alike R t') : t.render = t'.render := by
  cases h with
  | mk _ hf _ => simpa only [Term.render] using hf.render_eq

theorem Pattern.Alike.render_eq {p p' : Pattern} (h : p.Alike R p') : p.render = p'.render := by
  simpa only [TermForm.render] using (TermForm.Alike.pattern h).render_eq

/-! ### Statements -/

theorem Term.Alike.type {t t' : Term} (h : t.Alike R t') : R t.type t'.type := by
  cases h with
  | mk _ _ h => exact h

theorem Term.Alike.pos_eq {t t' : Term} (h : t.Alike R t') : t.pos = t'.pos := by
  cases h with
  | mk => rfl

inductive StatementKind.Alike (R : TypeId → TypeId → Prop) : StatementKind → StatementKind → Prop where
  | expression {t t' : Term} : t.Alike R t' → StatementKind.Alike R (.expression t) (.expression t')
  | noOp : StatementKind.Alike R .noOp .noOp
  | ret : StatementKind.Alike R .ret .ret
  | returnValue {t t' : Term} : t.Alike R t' →
      StatementKind.Alike R (.returnValue t) (.returnValue t')
  | writtenReturn {t t' : Option Term} : Option.Rel (Term.Alike R) t t' →
      StatementKind.Alike R (.writtenReturn t) (.writtenReturn t')

/-- The same statement with related types. -/
structure Statement.Alike (R : TypeId → TypeId → Prop) (s s' : Statement) : Prop where
  kind : s.kind.Alike R s'.kind
  pos : s.pos = s'.pos

namespace Statement

variable {s s' : Statement}

theorem Alike.mono (h : s.Alike R s') (hRS : ∀ s t, R s t → S s t) : s.Alike S s' := by
  obtain ⟨k, pos⟩ := s
  obtain ⟨k', pos'⟩ := s'
  refine ⟨?_, h.pos⟩
  obtain ⟨h, -⟩ := h
  cases h with
  | expression h => exact .expression (h.mono hRS)
  | noOp => exact .noOp
  | ret => exact .ret
  | returnValue h => exact .returnValue (h.mono hRS)
  | writtenReturn h => exact .writtenReturn (option_mono hRS h)

theorem Alike.render_eq (h : s.Alike R s') : s.render = s'.render := by
  obtain ⟨k, pos⟩ := s
  obtain ⟨k', pos'⟩ := s'
  obtain ⟨h, -⟩ := h
  cases h with
  | expression h => exact h.render_eq
  | noOp => rfl
  | ret => rfl
  | returnValue h => exact congrArg ("return " ++ ·) h.render_eq
  | writtenReturn h =>
    cases h with
    | none => rfl
    | some h => exact congrArg ("return " ++ ·) h.render_eq

theorem Alike.isNoOp_eq (h : s.Alike R s') : s.isNoOp = s'.isNoOp := by
  obtain ⟨k, pos⟩ := s
  obtain ⟨k', pos'⟩ := s'
  cases h.kind <;> rfl

theorem Alike.isWrittenReturn_eq (h : s.Alike R s') : s.isWrittenReturn = s'.isWrittenReturn := by
  obtain ⟨k, pos⟩ := s
  obtain ⟨k', pos'⟩ := s'
  cases h.kind <;> rfl

theorem alike_noOp (pos : Position) : (noOp pos).Alike R (noOp pos) := ⟨.noOp, rfl⟩

theorem alike_ofTerm {t t' : Term} (h : t.Alike R t') : (ofTerm t).Alike R (ofTerm t') :=
  ⟨.expression h, h.pos_eq⟩

end Statement

/-! ### Graphs -/

namespace Graph

/-- The same graph with alike statements. -/
structure Alike (R : TypeId → TypeId → Prop) (g h : Graph) : Prop where
  slots : List.Forall₂ (Option.Rel (Statement.Alike R)) g.slots h.slots
  vacant : g.vacant = h.vacant
  edges : g.edges = h.edges
  entries : g.entries = h.entries

theorem alike_empty : empty.Alike R empty := ⟨.nil, rfl, rfl, rfl⟩

variable {g h : Graph} {s s' : Statement} {n m : NodeId}

theorem Alike.mono (hgh : g.Alike R h) (hRS : ∀ s t, R s t → S s t) : g.Alike S h := by
  refine ⟨hgh.slots.imp ?_, hgh.vacant, hgh.edges, hgh.entries⟩
  rintro _ _ (h | _)
  · exact .some (h.mono hRS)
  · exact .none

section Operations

variable (hgh : g.Alike R h)

include hgh

theorem Alike.node? (n : NodeId) :
    Option.Rel (Statement.Alike R) (g.node? n) (h.node? n) := by
  unfold Graph.node?
  rcases optionRel_cases (forall₂_getElem? hgh.slots n) with ⟨hg, hh⟩ | ⟨o, o', hg, hh, hs⟩
  · rw [hg, hh]
    exact .none
  · rw [hg, hh]
    exact hs

theorem Alike.nodeText_eq (n : NodeId) :
    (g.node? n).map Statement.render = (h.node? n).map Statement.render := by
  rcases optionRel_cases (hgh.node? n) with ⟨hg, hh⟩ | ⟨s, s', hg, hh, hs⟩
  · rw [hg, hh]
  · rw [hg, hh, Option.map_some, Option.map_some, hs.render_eq]

theorem Alike.any_eq (n : NodeId) {p : Statement → Bool}
    (hp : ∀ s s' : Statement, s.Alike R s' → p s = p s') : (g.node? n).any p = (h.node? n).any p := by
  rcases optionRel_cases (hgh.node? n) with ⟨hg, hh⟩ | ⟨s, s', hg, hh, hs⟩
  · rw [hg, hh]
  · rw [hg, hh]
    exact hp s s' hs

theorem Alike.contains_eq (n : NodeId) : g.contains n = h.contains n := by
  unfold contains
  rcases optionRel_cases (hgh.node? n) with ⟨hg, hh⟩ | ⟨s, s', hg, hh, -⟩
  · rw [hg, hh]
  · rw [hg, hh]
    rfl

theorem Alike.nodes_eq : g.nodes = h.nodes := by
  rw [nodes, nodes, hgh.slots.length_eq, funext hgh.contains_eq]

theorem Alike.outgoing_eq (n : NodeId) : g.outgoing n = h.outgoing n := by
  rw [outgoing, outgoing, hgh.edges]

theorem Alike.incoming_eq (n : NodeId) : g.incoming n = h.incoming n := by
  rw [incoming, incoming, hgh.edges]

theorem Alike.isEntry_eq (n : NodeId) : g.isEntry n = h.isEntry n := by
  rw [isEntry, isEntry, hgh.entries]

theorem Alike.exits_eq : g.exits = h.exits := by
  simp only [exits, hgh.nodes_eq, hgh.outgoing_eq]

theorem Alike.findNodes_eq {p : Statement → Bool}
    (hp : ∀ s s' : Statement, s.Alike R s' → p s = p s') : g.findNodes p = h.findNodes p := by
  simp only [findNodes, hgh.nodes_eq, hgh.any_eq _ hp]

theorem Alike.addNode (hs : s.Alike R s') :
    (g.addNode s).1 = (h.addNode s').1 ∧ (g.addNode s).2.Alike R (h.addNode s').2 := by
  simp only [Graph.addNode, hgh.vacant]
  cases h.vacant with
  | nil =>
    exact ⟨hgh.slots.length_eq, List.rel_append hgh.slots (.cons (.some hs) .nil), rfl, hgh.edges,
      hgh.entries⟩
  | cons n rest => exact ⟨rfl, forall₂_set hgh.slots n (.some hs), rfl, hgh.edges, hgh.entries⟩

theorem Alike.addEdge (n m : NodeId) (kind : EdgeKind) :
    (g.addEdge n m kind).Alike R (h.addEdge n m kind) :=
  ⟨hgh.slots, hgh.vacant, congrArg (_ :: ·) hgh.edges, hgh.entries⟩

theorem Alike.addEntry (n : NodeId) :
    (g.addEntry n).Alike R (h.addEntry n) := by
  simp only [Graph.addEntry, ← hgh.entries]
  split
  · exact hgh
  · exact ⟨hgh.slots, hgh.vacant, hgh.edges, rfl⟩

theorem Alike.setKind (n : NodeId) {k k' : StatementKind} (hk : k.Alike R k') :
    (g.setKind n k).Alike R (h.setKind n k') := by
  unfold Graph.setKind
  have hn := hgh.node? n
  revert hn
  generalize g.node? n = o
  generalize h.node? n = o'
  rintro (hs | _)
  · exact ⟨forall₂_set hgh.slots n (.some ⟨hk, hs.pos⟩), hgh.vacant, hgh.edges, hgh.entries⟩
  · exact hgh

theorem Alike.clearOutgoing (n : NodeId) :
    (g.clearOutgoing n).Alike R (h.clearOutgoing n) :=
  ⟨hgh.slots, hgh.vacant, congrArg (List.filter _) hgh.edges, hgh.entries⟩

theorem Alike.removeNode (n : NodeId) :
    (g.removeNode n).Alike R (h.removeNode n) := by
  simp only [Graph.removeNode, hgh.contains_eq]
  split
  · exact ⟨forall₂_set hgh.slots n .none, congrArg (n :: ·) hgh.vacant,
      congrArg (List.filter _) hgh.edges, hgh.entries⟩
  · exact hgh

omit hgh in
theorem Alike.foldl {α : Type} {step : Graph → α → Graph} {step' : Graph → α → Graph}
    (hstep : ∀ g h x, g.Alike R h → (step g x).Alike R (step' h x)) (hgh : g.Alike R h) (xs : List α) :
    (xs.foldl step g).Alike R (xs.foldl step' h) := by
  induction xs generalizing g h with
  | nil => exact hgh
  | cons x xs ih => exact ih (hstep g h x hgh)

theorem Alike.replaceEntry (n m : NodeId) :
    (g.replaceEntry n m).Alike R (h.replaceEntry n m) := by
  simp only [Graph.replaceEntry, ← hgh.entries]
  split
  · split
    · exact ⟨hgh.slots, hgh.vacant, hgh.edges, rfl⟩
    · exact ⟨hgh.slots, hgh.vacant, hgh.edges, rfl⟩
  · exact hgh

theorem Alike.redirect (n m : NodeId) :
    (g.redirect n m).Alike R (h.redirect n m) := by
  simp only [Graph.redirect, hgh.incoming_eq]
  refine Alike.replaceEntry ?_ n m
  exact Alike.foldl (fun _ _ (e : Edge) hgh => hgh.addEdge e.source m e.kind) (hgh.removeNode n) _

theorem Alike.walk_eq (k : Nat) (w : Walk) : Walk.run g k w = Walk.run h k w := by
  induction k generalizing w with
  | zero => rfl
  | succ k ih => simp only [Walk.run, Walk.step, hgh.outgoing_eq, ih]

theorem Alike.postorder_eq : g.postorder = h.postorder := by
  simp only [postorder, postorderFrom, hgh.walk_eq, walkBound, hgh.slots.length_eq, hgh.edges,
    hgh.entries]

theorem Alike.removeUnreachable (keep : List NodeId) :
    (g.removeUnreachable keep).Alike R (h.removeUnreachable keep) := by
  simp only [Graph.removeUnreachable, hgh.postorder_eq, hgh.nodes_eq]
  exact Alike.foldl (fun _ _ n hgh => hgh.removeNode n) hgh _

theorem Alike.splice? (n : NodeId) :
    Option.Rel (Alike R) (g.splice? n) (h.splice? n) := by
  simp only [Graph.splice?, hgh.incoming_eq, hgh.outgoing_eq]
  split
  · split
    · exact .none
    · exact .some ((hgh.removeNode n).addEdge ..)
  · exact .none

theorem Alike.spliceEach (ns : List NodeId) :
    (spliceEach ns g).1 = (spliceEach ns h).1 ∧
      (Graph.spliceEach ns g).2.Alike R (Graph.spliceEach ns h).2 := by
  induction ns generalizing g h with
  | nil => exact ⟨rfl, hgh⟩
  | cons n ns ih =>
    simp only [Graph.spliceEach, hgh.isEntry_eq]
    by_cases hentry : h.isEntry n = true
    · rw [if_pos hentry, if_pos hentry]
      exact ih hgh
    · rw [if_neg hentry, if_neg hentry]
      rcases optionRel_cases (hgh.splice? n) with ⟨hg, hh⟩ | ⟨g', h', hg, hh, hgh'⟩
      · rw [hg, hh]
        exact ih hgh
      · rw [hg, hh]
        exact ⟨rfl, (ih hgh').2⟩

theorem Alike.simplifyWithin (k : Nat) :
    (simplifyWithin k g).Alike R (simplifyWithin k h) := by
  induction k generalizing g h with
  | zero => exact hgh
  | succ k ih =>
    obtain ⟨hflag, hround⟩ := hgh.spliceEach (h.findNodes Statement.isNoOp)
    simp only [Graph.simplifyWithin, hgh.findNodes_eq fun _ _ hs => hs.isNoOp_eq]
    revert hflag hround
    generalize Graph.spliceEach _ g = r
    generalize Graph.spliceEach _ h = r'
    obtain ⟨flag, g'⟩ := r
    obtain ⟨flag', h'⟩ := r'
    rintro (rfl : flag = flag') (hround : g'.Alike R h')
    cases flag with
    | true => exact ih hround
    | false => exact hround

theorem Alike.simplify : g.simplify.Alike R h.simplify := by
  simp only [Graph.simplify, nodeCount, hgh.nodes_eq]
  exact hgh.simplifyWithin _

theorem Alike.renderNode_eq (n : NodeId) : g.renderNode n = h.renderNode n := by
  simp only [renderNode, hgh.isEntry_eq, hgh.outgoing_eq, hgh.nodeText_eq]

/-- **Alike graphs have the same text.** -/
theorem Alike.render_eq : g.render = h.render := by
  simp only [render, reversePostorder, hgh.postorder_eq, funext hgh.renderNode_eq]

end Operations

end Graph

/-! ### Outcomes -/

/-- Two successes with related values or two failures with one error. -/
inductive SameOutcome {ε α β : Type} (V : α → β → Prop) : Except ε α → Except ε β → Prop where
  | ok {v : α} {w : β} : V v w → SameOutcome V (.ok v) (.ok w)
  | error (e : ε) : SameOutcome V (.error e) (.error e)

namespace SameOutcome

variable {ε α β γ δ : Type} {V W : α → β → Prop} {U : γ → δ → Prop} {x : Except ε α}
  {y : Except ε β}

theorem mono (h : SameOutcome V x y) (hVW : ∀ v w, V v w → W v w) : SameOutcome W x y := by
  cases h with
  | ok h => exact .ok (hVW _ _ h)
  | error e => exact .error e

theorem bind (h : SameOutcome V x y) {f : α → Except ε γ} {f' : β → Except ε δ}
    (hf : ∀ v w, V v w → SameOutcome U (f v) (f' w)) : SameOutcome U (x >>= f) (y >>= f') := by
  cases h with
  | ok h => exact hf _ _ h
  | error e => exact .error e

theorem map (h : SameOutcome V x y) {f : α → γ} {f' : β → δ}
    (hf : ∀ v w, V v w → U (f v) (f' w)) : SameOutcome U (x.map f) (y.map f') := by
  cases h with
  | ok h => exact .ok (hf _ _ h)
  | error e => exact .error e

theorem foldlM {step : α → γ → Except ε α} {step' : β → γ → Except ε β}
    (hstep : ∀ v w c, V v w → SameOutcome V (step v c) (step' w c)) {v : α} {w : β} (h : V v w)
    (cs : List γ) : SameOutcome V (cs.foldlM step v) (cs.foldlM step' w) := by
  induction cs generalizing v w with
  | nil => exact .ok h
  | cons c cs ih =>
    rw [List.foldlM_cons, List.foldlM_cons]
    exact (hstep v w c h).bind fun _ _ => ih

end SameOutcome

/-! ### Closing -/

structure Parameter.Alike (R : TypeId → TypeId → Prop) (p p' : Parameter) : Prop where
  name : p.name = p'.name
  type : R p.type p'.type
  mutable : p.mutable = p'.mutable
  pattern : p.pattern.Alike R p'.pattern
  location : p.location = p'.location

/-- The same signature with related types. -/
structure Signature.Alike (R : TypeId → TypeId → Prop) (s s' : Signature) : Prop where
  name : s.name = s'.name
  unit : s.unit = s'.unit
  location : s.location = s'.location
  params : List.Forall₂ (Parameter.Alike R) s.params s'.params
  returnType : R s.returnType s'.returnType
  receiver : s.receiver = s'.receiver

theorem Parameter.Alike.mono {p p' : Parameter} (h : p.Alike R p') (hRS : ∀ s t, R s t → S s t) :
    p.Alike S p' :=
  ⟨h.name, hRS _ _ h.type, h.mutable, h.pattern.mono hRS, h.location⟩

theorem Signature.Alike.mono {s s' : Signature} (h : s.Alike R s') (hRS : ∀ s t, R s t → S s t) :
    s.Alike S s' :=
  ⟨h.name, h.unit, h.location, h.params.imp fun _ _ hp => hp.mono hRS, hRS _ _ h.returnType,
    h.receiver⟩

namespace Cfg

open Graph

/-- The same function with related types. -/
structure Alike (R : TypeId → TypeId → Prop) (c c' : Cfg) : Prop where
  signature : c.signature.Alike R c'.signature
  graph : c.graph.Alike R c'.graph

theorem Alike.mono {c c' : Cfg} (h : c.Alike R c') (hRS : ∀ s t, R s t → S s t) : c.Alike S c' :=
  ⟨h.signature.mono hRS, h.graph.mono hRS⟩

theorem Alike.render_eq {c c' : Cfg} (h : c.Alike R c') : c.render = c'.render := by
  rw [render, render, Cfg.name, Cfg.name, h.signature.name, h.graph.render_eq]

variable {sig sig' : Signature} {g h : Graph}

theorem alike_closeUnitReturn (hgh : g.Alike R h) (ret n : NodeId) :
    (closeUnitReturn ret g n).Alike R (closeUnitReturn ret h n) := by
  unfold closeUnitReturn
  rcases optionRel_cases (hgh.node? n) with ⟨hg, hh⟩ | ⟨⟨k, _⟩, ⟨k', _⟩, hg, hh, hk, -⟩
  · rw [hg, hh]
    exact hgh
  · rw [hg, hh]
    cases hk with
    | writtenReturn ht =>
      cases ht with
      | none => exact hgh.redirect n ret
      | some ht => exact ((hgh.setKind n (.expression ht)).clearOutgoing n).addEdge ..
    | _ => exact hgh

theorem alike_closeUnit (hgh : g.Alike R h) (pos : Position) :
    (closeUnit pos g).Alike R (closeUnit pos h) := by
  have hstatement : Statement.Alike R ⟨.ret, pos⟩ ⟨.ret, pos⟩ := ⟨.ret, rfl⟩
  obtain ⟨hret, hadded⟩ := hgh.addNode hstatement
  simp only [closeUnit, hret]
  rw [hadded.findNodes_eq fun _ _ hs => hs.isWrittenReturn_eq]
  have hclosed := Alike.foldl (fun _ _ n hgh => alike_closeUnitReturn hgh (h.addNode ⟨.ret, pos⟩).1 n)
    hadded ((h.addNode ⟨.ret, pos⟩).2.findNodes Statement.isWrittenReturn)
  have hpruned := hclosed.removeUnreachable [(h.addNode ⟨.ret, pos⟩).1]
  rw [hpruned.exits_eq]
  refine Graph.Alike.foldl (fun g h n hgh => ?_) hpruned _
  unfold joinExit
  split
  · exact hgh
  · exact hgh.addEdge ..

theorem alike_guardSingle (hloc : sig.location = sig'.location) (hgh : g.Alike R h) :
    (guardSingle sig g).Alike R (guardSingle sig' h) := by
  unfold guardSingle
  rw [hgh.entries]
  cases h.entries with
  | nil => exact hgh
  | cons only rest =>
    have hpos : ((g.node? only).map Statement.pos).getD sig.location.position =
        ((h.node? only).map Statement.pos).getD sig'.location.position := by
      rcases optionRel_cases (hgh.node? only) with ⟨hg, hh⟩ | ⟨s, s', hg, hh, hs⟩
      · rw [hg, hh, hloc]
      · rw [hg, hh, hloc, Option.map_some, Option.map_some, hs.pos]
    dsimp only
    rw [hpos]
    obtain ⟨hnew, hadded⟩ := hgh.addNode (Statement.alike_noOp (R := R)
      (((h.node? only).map Statement.pos).getD sig'.location.position))
    rw [hnew]
    exact ⟨hadded.slots, hadded.vacant, congrArg (_ :: ·) hadded.edges, rfl⟩

variable (hname : sig.name = sig'.name) (hloc : sig.location = sig'.location)
include hname hloc

theorem missingValue_eq (hgh : g.Alike R h) (n : NodeId) :
    missingValue sig g n = missingValue sig' h n := by
  unfold missingValue
  rcases optionRel_cases (hgh.node? n) with ⟨hg, hh⟩ | ⟨s, s', hg, hh, hs⟩
  · rw [hg, hh, hname, hloc]
  · rw [hg, hh, hname, hloc, Option.map_some, Option.map_some, hs.pos]

theorem alike_closeValueReturn (hgh : g.Alike R h) (n : NodeId) :
    SameOutcome (Graph.Alike R) (closeValueReturn sig g n) (closeValueReturn sig' h n) := by
  have hmissing := missingValue_eq hname hloc hgh n
  unfold closeValueReturn
  rcases optionRel_cases (hgh.node? n) with ⟨hg, hh⟩ | ⟨⟨k, _⟩, ⟨k', _⟩, hg, hh, hk, -⟩
  · rw [hg, hh]
    exact .ok hgh
  · rw [hg, hh]
    cases hk with
    | writtenReturn ht =>
      cases ht with
      | none =>
        simp only [Option.map_some, hmissing]
        exact .error _
      | some ht => exact .ok ((hgh.setKind n (.returnValue ht)).clearOutgoing n)
    | _ => exact .ok hgh

theorem alike_closeExit (hgh : g.Alike R h) (n : NodeId) :
    SameOutcome (Graph.Alike R) (closeExit sig g n) (closeExit sig' h n) := by
  have hmissing := missingValue_eq hname hloc hgh n
  unfold closeExit
  rcases optionRel_cases (hgh.node? n) with ⟨hg, hh⟩ | ⟨⟨k, _⟩, ⟨k', _⟩, hg, hh, hk, -⟩
  · rw [hg, hh]
    exact .ok hgh
  · rw [hg, hh]
    cases hk with
    | expression ht => exact .ok (hgh.setKind n (.returnValue ht))
    | noOp =>
      simp only [Option.map_some, hmissing]
      exact .error _
    | _ => exact .ok hgh

theorem alike_closeValue (hgh : g.Alike R h) :
    SameOutcome (Graph.Alike R) (closeValue sig g) (closeValue sig' h) := by
  unfold closeValue
  rw [hgh.findNodes_eq fun _ _ hs => hs.isWrittenReturn_eq]
  refine (SameOutcome.foldlM (fun g h n hgh => alike_closeValueReturn hname hloc hgh n) hgh _).bind ?_
  intro g h hgh
  have hpruned := hgh.removeUnreachable []
  dsimp only
  rw [hpruned.exits_eq]
  exact SameOutcome.foldlM (fun g h n hgh => alike_closeExit hname hloc hgh n) hpruned _

/-- **Closing takes alike graphs to alike graphs, or fails on both in the same way.** -/
theorem alike_close (config : Config) (hunit : sig.returnsUnit = sig'.returnsUnit)
    (hgh : g.Alike R h) : SameOutcome (Graph.Alike R) (close config sig g) (close config sig' h) := by
  have hexits : SameOutcome (Graph.Alike R) (closeExits sig g) (closeExits sig' h) := by
    unfold closeExits
    rw [hunit, hloc]
    split
    · exact .ok (alike_closeUnit hgh _)
    · exact alike_closeValue hname hloc hgh
  refine hexits.bind fun g h hgh => .ok ?_
  have hsimple : (if config.simplify then g.simplify else g).Alike R
      (if config.simplify then h.simplify else h) := by
    split
    · exact hgh.simplify
    · exact hgh
  generalize (if config.simplify then g.simplify else g) = g' at hsimple ⊢
  generalize (if config.simplify then h.simplify else h) = h' at hsimple ⊢
  unfold finish
  rw [hunit, nodeCount, nodeCount, hsimple.nodes_eq]
  split
  · exact alike_guardSingle hloc hsimple
  · exact hsimple

end Cfg

end RustFlow
