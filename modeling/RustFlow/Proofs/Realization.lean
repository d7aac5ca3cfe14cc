/-
# Every construct records its runs

By induction over the syntax, lowering a construct gives a fragment that realizes
the behaviour it is read as (`tracks_lowerFlow`, `tracks_lowerBlock`).  There are
no other runs if every `loop` is left by a `break`: a `loop` that nothing leaves
has the exit of its body, from which control seems to go on.
-/

import RustFlow.Proofs.Iteration

namespace RustFlow

open Attempt Ast

namespace Body

open Graph

variable {set : Setting} {exact : Prop} {labels : List (Option String)} {breaks : List Nat}
  {b b' b₁ b₂ : Body} {f : Fragment} {c : NodeId}

theorem tracks_plain (sink : Sink) (e : Expr) :
    Tracks exact labels [] (plain set sink e) (Reading.plain set sink e) :=
  .afterContext fun t => tracks_sendTo sink t

/-- An assignment of a value with control flow is refused where its own value is
used. -/
theorem tracks_plain_assign (sink : Sink) (pos : Position) (target : Expr) {value : Expr}
    (h : value.isControlFlow = true) (read : Attempt Reading Behaviour) :
    Tracks exact labels breaks (plain set sink (.assign pos target value)) read := by
  intro b _ f b' hrun
  obtain ⟨t, b₁, hrun, -⟩ := bind_ok hrun
  obtain ⟨c, hrun, -⟩ := zoom_ok hrun
  rw [Scope.lowerExpr] at hrun
  obtain ⟨_, c₁, -, hrun⟩ := bind_ok hrun
  obtain ⟨v, c₂, hrun, -⟩ := bind_ok hrun
  exact absurd hrun (set.scope.lowerExpr_isControlFlow h c₁ v c₂)

/-- What adds a fragment or nothing. -/
def TracksOption (exact : Prop) (labels : List (Option String)) (breaks : List Nat)
    (act : Attempt Body (Option Fragment)) (read : Attempt Reading Behaviour) : Prop :=
  ∀ b, Ready labels b → Follows act read b fun r B b' =>
    match r with
    | some f => Tracked exact breaks b' f B
    | none => B = .nothing ∧ breaks = [] ∧ b'.graph = b.graph ∧ b'.loops = b.loops

theorem Tracks.some {act : Attempt Body Fragment} {read : Attempt Reading Behaviour}
    (h : Tracks exact labels breaks act read) :
    TracksOption exact labels breaks (some <$> act) read := fun b hb =>
  (h b hb).map Option.some fun _ _ _ hq => hq

theorem TracksOption.afterContext {α : Type} {act : Attempt Context α}
    {next : α → Attempt Body (Option Fragment)} {then' : α → Attempt Reading Behaviour}
    (h : ∀ a, TracksOption exact labels breaks (next a) (then' a)) :
    TracksOption exact labels breaks (Body.onContext act >>= next)
      (Reading.onContext act >>= then') := by
  intro b hb
  refine (Follows.onContext act).bind ?_
  rintro _ a b₁ ⟨rfl, hg, hl⟩
  refine (h a b₁ (hb.of_eq hg hl)).imp fun r B b' hr => ?_
  cases r with
  | some f => exact hr
  | none => exact ⟨hr.1, hr.2.1, hr.2.2.1.trans hg, hr.2.2.2.trans hl⟩

theorem tracks_letPlain (pos : Position) (p : Pattern) (ascription : Option String)
    (declared : Option TypeId) (init : Expr) :
    Tracks exact labels [] (letPlain set pos p ascription declared init)
      (Reading.letPlain set pos p ascription declared init) :=
  .afterContext fun _ => .afterContext fun _ => tracks_single rfl rfl

theorem tracksOption_declare (sink : Sink) (pos : Position) (pat : Pat)
    (ascription : Option TypeAnn) (diverges : Bool) :
    TracksOption exact labels [] (lowerStmt set sink (.bind pos pat ascription none diverges))
      (Reading.flowStmt set labels sink (.bind pos pat ascription none diverges)) := by
  refine .afterContext fun declared => .afterContext fun p => fun b hb => .get ?_
  exact TracksOption.afterContext (fun _ => (tracks_single rfl rfl).some) b hb

theorem tracksOption_bind (sink : Sink) (pos : Position) (pat : Pat)
    (ascription : Option TypeAnn) {e : Expr} (diverges : Bool)
    (he : e.isControlFlow = true → ∀ target, Tracks exact labels breaks
      (lowerFlow set (.assigned target) e) (Reading.flow set labels (.assigned target) e))
    (hplain : e.isControlFlow = false → breaks = []) :
    TracksOption exact labels breaks
      (lowerStmt set sink (.bind pos pat ascription (some e) diverges))
      (Reading.flowStmt set labels sink (.bind pos pat ascription (some e) diverges)) := by
  simp only [lowerStmt, Reading.flowStmt]
  refine .afterContext fun declared => .afterContext fun p => fun b hb => .get ?_
  split
  · exact .fails
  · cases hcf : e.isControlFlow with
    | true =>
      exact (tracks_letFlow pos p _ declared (fun sink => Reading.flow set labels sink e)
        (local_lowerFlow set e) (he hcf)).some b hb
    | false =>
      rw [hplain hcf]
      exact (tracks_letPlain pos p _ declared e).some b hb

/-- What has been lowered so far of a sequence of statements. -/
def Joined (set : Setting) (exact : Prop) (b : Body) : Option Fragment → Behaviour → Prop
  | none, A => A = .nothing
  | some p, A => ∃ b₀, Part set b₀ b p ∧ Realizes exact b p A

theorem Joined.of_eq {current : Option Fragment} {A : Behaviour} (h : Joined set exact b current A)
    (hg : b'.graph = b.graph) (hl : b'.loops = b.loops) : Joined set exact b' current A := by
  cases current with
  | none => exact h
  | some p =>
    obtain ⟨b₀, hp, hA⟩ := h
    exact ⟨b₀, hp.of_eq hg hl, hA.of_eq hg hl⟩

/-- **One more statement.** -/
theorem Joined.chain {current : Option Fragment} {next : Fragment} {A B : Behaviour}
    (hA : Joined set exact b current A) (hn : Part set b b₁ next) (hB : Realizes exact b₁ next B) :
    ∃ f b₂, Body.chain current next b₁ = (.ok f, b₂) ∧ b₂.reading = b₁.reading ∧ Extends b₁ b₂ ∧
      Sound b₂ ∧ b₂.loops = b₁.loops ∧ Joined set exact b₂ (some f) (A.andThen B) := by
  cases current with
  | none =>
    obtain rfl : A = .nothing := hA
    refine ⟨next, b₁, rfl, rfl, .refl b₁, hn.sound, rfl, b, hn, ?_⟩
    rw [Behaviour.nothing_andThen]
    exact hB
  | some p =>
    obtain ⟨b₀, hp, hA⟩ := hA
    obtain ⟨f, b₂, hrun, hread, hloops, hlater, hpart, hall⟩ := chain_run hp hn
    exact ⟨f, b₂, hrun, hread, hlater, hpart.sound, hloops, b₀, hpart, hall A B hA hB⟩

section Profiles

variable {p q : Profile}

/-- What the results ask of a construct, given its profile. -/
structure Fits (exact : Prop) (p : Profile) : Prop where
  structured : p.structured = true
  broken : exact → p.broken = true

theorem Fits.left (h : Fits exact (p.and q)) : Fits exact p :=
  ⟨(Bool.and_eq_true_iff.1 h.structured).1, fun he => (Bool.and_eq_true_iff.1 (h.broken he)).1⟩

theorem Fits.right (h : Fits exact (p.and q)) : Fits exact q :=
  ⟨(Bool.and_eq_true_iff.1 h.structured).2, fun he => (Bool.and_eq_true_iff.1 (h.broken he)).2⟩

theorem Fits.of_require {ok : Bool} (h : Fits exact (p.require ok)) : ok = true ∧ Fits exact p :=
  ⟨(Bool.and_eq_true_iff.1 h.structured).1, (Bool.and_eq_true_iff.1 h.structured).2, h.broken⟩

theorem Fits.of_outside (h : Fits exact p.outside) : Fits exact p := ⟨h.structured, h.broken⟩

theorem Fits.of_outsideLoop (h : Fits exact p.outsideLoop) :
    Fits exact p ∧ (exact → p.breaks.contains 0 = true) :=
  ⟨⟨h.structured, fun he => (Bool.and_eq_true_iff.1 (h.broken he)).2⟩,
    fun he => (Bool.and_eq_true_iff.1 (h.broken he)).1⟩

end Profiles

theorem follows_stmt {act : Attempt Body (Option Fragment)} {read : Attempt Reading Behaviour}
    (hlocal : LocalOption set act) (h : TracksOption exact labels breaks act read)
    (hb : Ready labels b) :
    Follows act read b fun r B b' => Ready labels b' ∧ Extends b b' ∧
      match r with
      | some f => Part set b b' f ∧ Tracked exact breaks b' f B
      | none => B = .nothing ∧ breaks = [] ∧ b'.graph = b.graph ∧ b'.loops = b.loops := by
  intro r b' hrun
  obtain ⟨B, hread, hq⟩ := h b hb r b' hrun
  obtain ⟨hg, hends⟩ := hlocal b hb.sound.vacant
  rw [hrun] at hg hends
  refine ⟨B, hread, ⟨hg.sound hb.sound, hg.labels.trans hb.labels⟩, hg.later, ?_⟩
  cases r with
  | none => exact hq
  | some f => exact ⟨⟨hb.sound, hg, hends _ rfl f rfl⟩, hq⟩

mutual

/-- **Every expression records its runs.** -/
theorem tracks_lowerFlow (set : Setting) (labels : List (Option String)) {exact : Prop}
    (e : Expr) {sink : Sink} (hsink : sink.isReturned = true → set.returnsUnit = false)
    (hfits : Fits exact (e.profile labels)) :
    Tracks exact labels (e.profile labels).breaks (lowerFlow set sink e)
      (Reading.flow set labels sink e) := by
  cases e with
  | branch pos clauses otherwise =>
    obtain ⟨hne, hfits⟩ := hfits.of_require
    simp only [lowerFlow, Reading.flow]
    refine tracks_ifChain pos ?_ (local_lowerOtherwise set hsink otherwise) ?_ ?_
    · intro b c hb hc
      refine (follows_lowerClauses set labels clauses hsink hfits.left hb hc
        fun p h => by cases h).imp ?_
      rintro gs branches b' ⟨hb', hleft, hsome, hchain⟩
      obtain ⟨gs, rfl⟩ := Option.isSome_iff_exists.1 (hsome.trans hne)
      exact ⟨hb', hleft, gs, rfl, trivial, hchain⟩
    · intro m hm
      cases otherwise with
      | none => cases hm
      | some body =>
        cases hm
        exact tracks_lowerBlock set labels body hsink hfits.right
    · intro hnone
      cases otherwise with
      | none => exact ⟨rfl, rfl⟩
      | some body => cases hnone
  | matchOn pos scrutinee arms =>
    obtain ⟨hne, hfits⟩ := hfits.of_require
    simp only [lowerFlow, Reading.flow]
    refine .afterContext fun value => tracks_matchChain pos sink ?_
    intro b c hb hc
    refine (follows_lowerArms set labels value arms hsink hfits hb hc fun p h => by cases h).imp ?_
    rintro gs v b' ⟨hb', hleft, hsome, hchain, hlast⟩
    obtain ⟨gs, rfl⟩ := Option.isSome_iff_exists.1 (hsome.trans hne)
    exact ⟨hb', hleft, gs, rfl, hlast gs rfl, hchain⟩
  | whileLoop pos label condition body =>
    simp only [lowerFlow, Reading.flow]
    split
    · exact tracks_refuse
    · refine .afterContext fun guard => tracks_whileLoop pos label guard
        (local_lowerBlock set body .discard fun h => by cases h) ?_
      exact tracks_lowerBlock set (label :: labels) body (fun h => by cases h) hfits.of_outside
  | loop pos label body =>
    obtain ⟨hfits, hbroken⟩ := hfits.of_outsideLoop
    simp only [lowerFlow, Reading.flow]
    split
    · exact tracks_refuse
    · refine tracks_plainLoop pos label (local_lowerBlock set body .discard fun h => by cases h) ?_
        hbroken
      exact tracks_lowerBlock set (label :: labels) body (fun h => by cases h) hfits
  | forLoop pos label pat iterable body =>
    simp only [lowerFlow, Reading.flow]
    split
    · exact tracks_refuse
    · refine tracks_forLoop pos label pat iterable
        (local_lowerBlock set body .discard fun h => by cases h) ?_
      exact tracks_lowerBlock set (label :: labels) body (fun h => by cases h) hfits.of_outside
  | block pos label body =>
    cases label with
    | some label => exact tracks_refuse
    | none => exact tracks_lowerBlock set labels body hsink hfits
  | unsafeBlock pos body => exact tracks_lowerBlock set labels body hsink hfits
  | ret pos value =>
    cases value with
    | none => exact tracks_written none pos
    | some e =>
      simp only [lowerFlow, Reading.flow]
      cases hcf : e.isControlFlow with
      | false =>
        simp only [Expr.profile, hcf]
        exact .afterContext fun value => tracks_written (some value) pos
      | true =>
        simp only [Expr.profile, hcf, if_true] at hfits ⊢
        obtain ⟨hloop, hfits⟩ := hfits.of_require
        rw [Bool.not_eq_true'] at hloop
        simp only [hloop, Bool.not_true, Bool.false_eq_true, if_false, Bool.or_false]
        exact tracks_returnFlow pos (fun sink => Reading.flow set labels sink e)
          (local_lowerFlow set e) (tracks_lowerFlow set labels e (fun h => by cases h) hfits)
          fun hunit => tracks_lowerFlow set labels e (fun _ => hunit) hfits
  | leave pos label value =>
    simp only [lowerFlow, Reading.flow]
    split
    · exact tracks_refuse
    · exact tracks_jump .leave label pos fun i hi => ⟨rfl, Option.mem_toList.1 hi⟩
  | next pos label => exact tracks_jump .next label pos fun i hi => by cases hi
  | assign pos target value =>
    simp only [lowerFlow, Reading.flow]
    split
    · rename_i hflow
      obtain ⟨-, hcf⟩ := Bool.and_eq_true_iff.1 hflow
      simp only [Expr.profile, hcf, if_true] at hfits ⊢
      exact .afterContext fun t => tracks_lowerFlow set labels value (fun h => by cases h) hfits
    · cases hcf : value.isControlFlow with
      | true => exact tracks_plain_assign sink pos target hcf _
      | false =>
        simp only [Expr.profile, hcf]
        exact tracks_plain sink _
  | _ => exact tracks_plain sink _

/-- **Every block records its runs.** -/
theorem tracks_lowerBlock (set : Setting) (labels : List (Option String)) {exact : Prop}
    (body : Block) {sink : Sink} (hsink : sink.isReturned = true → set.returnsUnit = false)
    (hfits : Fits exact (body.profile labels)) :
    Tracks exact labels (body.profile labels).breaks (lowerBlock set sink body)
      (Reading.flowBlock set labels sink body) := by
  obtain ⟨pos, stmts⟩ := body
  intro b hb
  have hstart : Joined set exact b none .nothing := rfl
  refine (follows_lowerStmts set labels stmts hsink hfits hb hstart).andThen ?_
  rintro r B b₁ ⟨hb₁, -, hleft, hjoined⟩
  rw [Behaviour.nothing_andThen] at hjoined
  cases r with
  | none =>
    obtain rfl : B = .nothing := hjoined
    refine .add hb₁.sound.vacant (.pure ⟨realizes_single hb₁.sound rfl rfl, ?_⟩)
    exact (Extends.withNode b₁ _).left hleft
  | some f =>
    obtain ⟨-, -, hrealizes⟩ := hjoined
    exact .pure ⟨hrealizes, hleft⟩

theorem follows_lowerStmts (set : Setting) (labels : List (Option String)) {exact : Prop}
    (stmts : List Stmt) {sink : Sink}
    (hsink : sink.isReturned = true → set.returnsUnit = false)
    (hfits : Fits exact (Ast.profileStmts labels stmts)) {b : Body} (hb : Ready labels b)
    {current : Option Fragment} {A : Behaviour} (hA : Joined set exact b current A) :
    Follows (lowerStmts set sink current stmts) (Reading.flowStmts set labels sink stmts) b
      fun r B b' => Ready labels b' ∧ Extends b b' ∧
        (∀ i ∈ (Ast.profileStmts labels stmts).breaks, ∃ x, b'.Hop .leave i x) ∧
        Joined set exact b' r (A.andThen B) := by
  cases stmts with
  | nil =>
    refine .pure ⟨hb, .refl b, ?_, ?_⟩
    · intro i hi
      cases hi
    · rw [Behaviour.andThen_nothing]
      exact hA
  | cons s rest =>
    have hs : (if rest.isEmpty = true then sink else .discard).isReturned = true →
        set.returnsUnit = false := by
      split
      · exact hsink
      · exact fun h => by cases h
    have hstmt := follows_stmt (local_lowerStmt set hs s)
      (tracks_lowerStmt set labels s hs hfits.left) hb
    refine hstmt.bind ?_
    rintro r B b₁ ⟨hb₁, hx₁, hr⟩
    -- the rest goes on from what has been joined so far
    have hrest : ∀ {b₂ current}, Ready labels b₂ → Extends b₁ b₂ →
        Joined set exact b₂ current (A.andThen B) →
        (∀ i ∈ (s.profile labels).breaks, ∃ x, b₂.Hop .leave i x) →
        Follows (lowerStmts set sink current rest) (do
          let others ← Reading.flowStmts set labels sink rest
          return B.andThen others) b₂
          fun r C b' => Ready labels b' ∧ Extends b b' ∧
            (∀ i ∈ (Ast.profileStmts labels (s :: rest)).breaks, ∃ x, b'.Hop .leave i x) ∧
            Joined set exact b' r (A.andThen C) := by
      intro b₂ current hb₂ hx₂ hjoined hleft
      refine (follows_lowerStmts set labels rest hsink hfits.right hb₂ hjoined).mapRead _ ?_
      rintro r C b' ⟨hb', hx', hleft', hjoined'⟩
      refine ⟨hb', hx₁.trans (hx₂.trans hx'), fun i hi => ?_, ?_⟩
      · exact (List.mem_append.1 hi).elim (hx'.left hleft i) (hleft' i)
      · rw [← Behaviour.andThen_assoc]
        exact hjoined'
    cases r with
    | none =>
      obtain ⟨rfl, hbreaks, hg, hl⟩ := hr
      refine hrest hb₁ (.refl b₁) ?_ (fun i hi => by rw [hbreaks] at hi; cases hi)
      rw [Behaviour.andThen_nothing]
      exact hA.of_eq hg hl
    | some f =>
      obtain ⟨hpart, htracked⟩ := hr
      obtain ⟨joined, b₂, hrun, hread, hlater, hsound, hloops, hjoined⟩ :=
        hA.chain hpart htracked.realizes
      exact .alone hrun hread (hrest ⟨hsound, hloops ▸ hb₁.labels⟩ hlater hjoined
        (hlater.left htracked.left))

theorem tracks_lowerStmt (set : Setting) (labels : List (Option String)) {exact : Prop}
    (s : Stmt) {sink : Sink} (hsink : sink.isReturned = true → set.returnsUnit = false)
    (hfits : Fits exact (s.profile labels)) :
    TracksOption exact labels (s.profile labels).breaks (lowerStmt set sink s)
      (Reading.flowStmt set labels sink s) := by
  cases s with
  | bind pos pat ascription init diverges =>
    cases init with
    | none => exact tracksOption_declare sink pos pat ascription diverges
    | some e =>
      refine tracksOption_bind sink pos pat ascription diverges ?_ ?_
      · intro hcf target
        simp only [Stmt.profile, hcf, if_true] at hfits ⊢
        exact tracks_lowerFlow set labels e (fun h => by cases h) hfits
      · intro hcf
        simp only [Stmt.profile, hcf]
        rfl
  | expr e semi =>
    refine (tracks_lowerFlow set labels e ?_ hfits).some
    split
    · exact fun h => by cases h
    · exact hsink
  | useDecl => exact fun b hb => .pure ⟨rfl, rfl, rfl, rfl⟩
  | item pos => exact fun _ _ => .fails

theorem follows_lowerClauses (set : Setting) (labels : List (Option String)) {exact : Prop}
    (clauses : List Clause) {sink : Sink}
    (hsink : sink.isReturned = true → set.returnsUnit = false)
    (hfits : Fits exact (Ast.profileClauses labels clauses)) {b : Body} (hb : Ready labels b)
    {c : NodeId} (hc : b.graph.contains c = true) {pending : Option NodeId}
    (hp : ∀ p, pending = some p → b.graph.contains p = true) :
    Follows (lowerClauses set sink c pending clauses) (Reading.flowClauses set labels sink clauses) b
      fun gs branches b' => Ready labels b' ∧
        (∀ i ∈ (Ast.profileClauses labels clauses).breaks, ∃ x, b'.Hop .leave i x) ∧
        gs.isSome = !clauses.isEmpty ∧
        ChainAt exact b b' c pending (gs.map Guards.first) (gs.map Guards.last) branches := by
  cases clauses with
  | nil =>
    refine .pure ⟨hb, ?_, rfl, ChainAt.nil hb.sound pending⟩
    intro i hi
    cases hi
  | cons clause rest =>
    obtain ⟨condition, body⟩ := clause
    refine (Follows.onContext _).bind ?_
    rintro _ test b₁ ⟨rfl, hg, hl⟩
    have hb₁ := hb.of_eq hg hl
    refine (follows_guarded (local_lowerBlock set body sink hsink)
      (tracks_lowerBlock set labels body hsink hfits.left) hb₁ (hg ▸ hc)
      fun p h => hg ▸ hp p h).bind ?_
    rintro _ A b₂ ⟨rfl, ⟨yes, hbranch⟩, hlabels, hleft⟩
    have hcb : c < b₁.size := lt_of_contains (hg ▸ hc)
    refine (follows_lowerClauses set labels rest hsink hfits.right ⟨hbranch.sound, hlabels⟩
      (hbranch.later.contains (hg ▸ hc)) fun p h => ?_).bind ?_
    · cases h
      exact contains_of_node? hbranch.guard.node
    rintro others branches b₃ ⟨hb₃, hleft', -, hchain⟩
    refine .pure ⟨hb₃, fun i hi => ?_, rfl, ?_⟩
    · exact (List.mem_append.1 hi).elim (hchain.later.left hleft i) (hleft' i)
    · exact (ChainAt.cons hbranch hcb hchain).of_eq hg hl

theorem follows_lowerArms (set : Setting) (labels : List (Option String)) {exact : Prop}
    (scrutinee : Term) (arms : List Arm) {sink : Sink}
    (hsink : sink.isReturned = true → set.returnsUnit = false)
    (hfits : Fits exact (Ast.profileArms labels arms)) {b : Body} (hb : Ready labels b)
    {c : NodeId} (hc : b.graph.contains c = true) {pending : Option NodeId}
    (hp : ∀ p, pending = some p → b.graph.contains p = true) :
    Follows (lowerArms set sink c scrutinee pending arms)
      (Reading.flowArms set labels sink scrutinee arms) b
      fun gs v b' => Ready labels b' ∧
        (∀ i ∈ (Ast.profileArms labels arms).breaks, ∃ x, b'.Hop .leave i x) ∧
        gs.isSome = !arms.isEmpty ∧
        ChainAt exact b b' c pending (gs.map fun a => a.1.first) (gs.map fun a => a.1.last) v ∧
        ∀ a, gs = some a → a.2 = Ast.lastTakesAll arms := by
  cases arms with
  | nil =>
    refine .pure ⟨hb, ?_, rfl, ChainAt.nil hb.sound pending, ?_⟩
    · intro i hi
      cases hi
    · intro a h
      cases h
  | cons arm rest =>
    obtain ⟨pat, extra, body⟩ := arm
    refine (Follows.ranContext _).bind ?_
    rintro _ ⟨test, exhaustive⟩ b₁ ⟨⟨_, _, htest⟩, rfl, hg, hl⟩
    have hb₁ := hb.of_eq hg hl
    refine (follows_guarded (local_lowerFlow set body sink hsink)
      (tracks_lowerFlow set labels body hsink hfits.left) hb₁ (hg ▸ hc)
      fun p h => hg ▸ hp p h).bind ?_
    rintro _ A b₂ ⟨rfl, ⟨yes, hbranch⟩, hlabels, hleft⟩
    have hcb : c < b₁.size := lt_of_contains (hg ▸ hc)
    refine (follows_lowerArms set labels scrutinee rest hsink hfits.right ⟨hbranch.sound, hlabels⟩
      (hbranch.later.contains (hg ▸ hc)) fun p h => ?_).bind ?_
    · cases h
      exact contains_of_node? hbranch.guard.node
    rintro others branches b₃ ⟨hb₃, hleft', hsome, hchain, hlast⟩
    refine .pure ⟨hb₃, fun i hi => ?_, rfl, ?_, ?_⟩
    · exact (List.mem_append.1 hi).elim (hchain.later.left hleft i) (hleft' i)
    · have hcons := (ChainAt.cons hbranch hcb hchain).of_eq hg hl
      cases others with
      | none => exact hcons
      | some others => exact hcons
    · rintro a ⟨⟩
      cases others with
      | none =>
        obtain rfl : rest = [] := by simpa using hsome.symm
        show exhaustive = (Arm.mk pat extra body).takesAll
        exact eq_takesAll_of_armTest htest
      | some others =>
        obtain ⟨next, rest, rfl⟩ : ∃ next tail, rest = next :: tail :=
          List.exists_cons_of_ne_nil (by simpa using hsome.symm)
        exact hlast others rfl

end

end Body
end RustFlow
