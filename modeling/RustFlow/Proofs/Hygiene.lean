/-
# Hygiene of iterators

A `for` loop steps an iterator that the source does not name: the stem of the settings and
the number of the loop make up its name.  It is bound among the other variables, and the
body of the loop is lowered between its two steps.

**As long as no word of the body is the name of an iterator**, the loop finds at the later
step what it bound before the first: both steps are one statement (`Graph.Iterated`).
Nothing keeps a body from using such a name, and then the later step may call `next` on a
variable of the body (`reboundBody`), or the body may find an iterator in the place of a
parameter (`maskedParameter`).
-/

import RustFlow.Proofs.LexicalScope

namespace RustFlow
namespace Cfg

open Body Ast

/-- **Iterators are hygienic.**  Every iterator that is named in a body gets a loop with two
steps that are one statement, and no two have one name.  No iterator takes the place of a
parameter: one that the body does not bind again, and whose name is not that of an iterator,
is the variable it was.  So each loop of the body has an iterator of its own: wherever a loop
is lowered, its number is the next one, and the loops in its body and after it get later
ones. -/
theorem iterators_hygienic (config : Config) (scope : Scope) (sig : Signature) (body : Ast.Block)
    (arena : Arena) (havoids : body.scoping.Avoids config.freshStem)
    (hok : (lowerBody config scope sig body arena).1.isOk = true) :
    (∀ k, k < (lowerBody config scope sig body arena).2.fresh →
      ∃ init, (lowerBody config scope sig body arena).2.graph.Iterated
        (iteratorName config.freshStem k) init) ∧
    (∀ i k, i ≠ k → iteratorName config.freshStem i ≠ iteratorName config.freshStem k) ∧
    (∀ name, name ∉ body.scoping.bound → (∀ k, name ≠ iteratorName config.freshStem k) →
      (lowerBody config scope sig body arena).2.context.local? name =
        (sig.context arena).local? name) ∧
    ∀ (sink : Sink) (pos : Position) (label : Option String) (pat : Ast.Pat)
      (iterable : Ast.Expr) (inner : Ast.Block) (b b' : Body) (fragment : Fragment),
      (Ast.Expr.forLoop pos label pat iterable inner).scoping.Avoids config.freshStem →
      b.graph.vacant = [] →
      lowerFlow ⟨scope, config.freshStem, sig.returnsUnit⟩ sink
        (.forLoop pos label pat iterable inner) b = (.ok fragment, b') →
      b.fresh < b'.fresh ∧
        b'.graph.Iterated (iteratorName config.freshStem b.fresh) fragment.entry := by
  have hmirrors := mirrors_lowerBlock ⟨scope, config.freshStem, sig.returnsUnit⟩ (fun _ => True)
    (if sig.returnsUnit then .discard else .returned) body
  obtain ⟨fragment, hout⟩ : ∃ fragment, (lowerBody config scope sig body arena).1 = .ok fragment := by
    cases hout : (lowerBody config scope sig body arena).1 with
    | ok fragment => exact ⟨fragment, rfl⟩
    | error e =>
      rw [hout] at hok
      cases hok
  have hframed := hmirrors.frames havoids (Prod.ext hout rfl)
  refine ⟨fun k hk => (hframed.since rfl).2 k (Nat.zero_le k) hk,
    fun i k hne heq => hne (iteratorName_inj heq),
    fun name hname hplain => hframed.lookup name hname fun k _ => hplain k, ?_⟩
  · intro sink pos label pat iterable inner b b' fragment havoids hv hrun
    rw [lowerFlow] at hrun
    split at hrun
    · cases hrun
    · have hloop := framed_forLoop (fun J => mirrors_lowerBlock _ J .discard inner) iterable havoids hrun
      exact ⟨hloop.2.1, hloop.2.2 hv⟩

/-- `{ for i in x { for j in i {} } for i in x {} }`. -/
def nestedIterators : Block :=
  .mk default [
    .expr (.forLoop default none (.binding default "i" false) (mentionOf "x") (.mk default
      [.expr (.forLoop default none (.binding default "j" false) (mentionOf "i")
        (.mk default [])) false])) false,
    .expr (.forLoop default none (.binding default "i" false) (mentionOf "x") (.mk default [])) false]

theorem iterators_hygienic_nestedIterators :
    let scope : Scope := ⟨default, none, [], true, "a.rs"⟩
    let sig : Signature := ⟨"f", default, default, [], .unit, none⟩
    nestedIterators.scoping.Avoids "__iter" ∧
      (lowerBody {} scope sig nestedIterators .empty).1.isOk = true ∧
      ∀ k, k < 3 → ∃ init, (lowerBody {} scope sig nestedIterators .empty).2.graph.Iterated
        (iteratorName "__iter" k) init := by
  intro scope sig
  have havoids : nestedIterators.scoping.Avoids "__iter" := avoids_of_short (by decide)
  have hok : (lowerBody {} scope sig nestedIterators .empty).1.isOk = true ∧
      (lowerBody {} scope sig nestedIterators .empty).2.fresh = 3 := by decide +kernel
  have hloops := (iterators_hygienic {} scope sig nestedIterators .empty havoids hok.1).1
  rw [hok.2] at hloops
  exact ⟨havoids, hok.1, hloops⟩

/-- The variable on which the node of a step calls `next`, with its type. -/
def steppedAt (lowered : Except Error Fragment × Body) (n : NodeId) :
    Option (Variable × TypeId) :=
  match (lowered.2.graph.node? n).bind Statement.term? with
  | some (.mk (.declare _ _ (some (.mk (.call "next" _ _ [.mk (.var v) type _]) _ _))) _ _) =>
    some (v, type)
  | _ => none

/-- `{ for i in x { let __iter0 = 1; } }`. -/
def reboundBody : Block :=
  .mk default [.expr (.forLoop default none (.binding default "i" false) (mentionOf "x")
    (.mk default [letOf "__iter0" false (.int false 1 "")])) false]

/-- `{ for i in x {} __iter0; }`, for a function with the parameter `__iter0: i32`. -/
def maskedParameter : Block :=
  .mk default [
    .expr (.forLoop default none (.binding default "i" false) (mentionOf "x") (.mk default [])) false,
    .expr (mentionOf "__iter0") true]

/-- **A body may bind the name of an iterator**: the first step calls `next` on the iterator,
and the later one on the variable of the body.  A parameter of that name is the iterator from
the loop on. -/
theorem iterators_rebound :
    let scope : Scope := ⟨default, none, [], true, "a.rs"⟩
    let sig : Signature := ⟨"f", default, default, [], .unit, none⟩
    let param : Parameter := ⟨"__iter0", .i32, false, .binding ⟨"__iter0", false⟩, default⟩
    let lowered := lowerBody {} scope sig reboundBody .empty
    let masked := lowerBody {} scope { sig with params := [param] } maskedParameter .empty
    lowered.1.isOk = true ∧ lowered.2.fresh = 1 ∧
      steppedAt lowered 1 = some (⟨"__iter0", true⟩, .unknown) ∧
      steppedAt lowered 5 = some (⟨"__iter0", false⟩, .i32) ∧
      masked.1.isOk = true ∧ variableAt masked 6 = some (⟨"__iter0", true⟩, .unknown) := by
  decide +kernel

end Cfg
end RustFlow
