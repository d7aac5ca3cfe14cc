/-
# Lists related element by element

States that correspond hold lists that do: slots of graphs, frames of loops, units of
programs.  `List.Forall₂` says that lists are related element by element, `Option.Rel`
that options are; here is how lookups and updates take the one to the other.
-/

import Mathlib.Data.List.Forall2
import Mathlib.Data.Option.Basic

namespace RustFlow

variable {α β γ : Type} {P : α → β → Prop} {xs : List α} {ys : List β}

theorem optionRel_cases {o : Option α} {o' : Option β} (h : Option.Rel P o o') :
    o = none ∧ o' = none ∨ ∃ x y, o = some x ∧ o' = some y ∧ P x y := by
  cases h with
  | none => exact .inl ⟨rfl, rfl⟩
  | some h => exact .inr ⟨_, _, rfl, rfl, h⟩

theorem optionRel_imp {Q : α → β → Prop} {o : Option α} {o' : Option β} (h : Option.Rel P o o')
    (hPQ : ∀ x y, P x y → Q x y) : Option.Rel Q o o' := by
  cases h with
  | none => exact .none
  | some h => exact .some (hPQ _ _ h)

theorem optionRel_map {γ δ : Type} {Q : γ → δ → Prop} {f : α → γ} {g : β → δ} {o : Option α}
    {o' : Option β} (h : Option.Rel P o o') (hfg : ∀ x y, P x y → Q (f x) (g y)) :
    Option.Rel Q (o.map f) (o'.map g) := by
  cases h with
  | none => exact .none
  | some h => exact .some (hfg _ _ h)

theorem optionRel_bind {γ δ : Type} {Q : γ → δ → Prop} {f : α → Option γ} {g : β → Option δ}
    {o : Option α} {o' : Option β} (h : Option.Rel P o o')
    (hfg : ∀ x y, P x y → Option.Rel Q (f x) (g y)) : Option.Rel Q (o.bind f) (o'.bind g) := by
  cases h with
  | none => exact .none
  | some h => exact hfg _ _ h

theorem optionRel_filter {p : α → Bool} {q : β → Bool} {o : Option α} {o' : Option β}
    (h : Option.Rel P o o') (hpq : ∀ x y, P x y → p x = q y) :
    Option.Rel P (o.filter p) (o'.filter q) := by
  cases h with
  | none => exact .none
  | @some x y hxy =>
    rw [Option.filter_some, Option.filter_some, hpq x y hxy]
    split
    · exact .some hxy
    · exact .none

theorem optionRel_or {o q : Option α} {o' q' : Option β} (h : Option.Rel P o o')
    (h' : Option.Rel P q q') : Option.Rel P (o.or q) (o'.or q') := by
  cases h with
  | none => exact h'
  | some h => exact .some h

theorem optionRel_getD {o : Option α} {o' : Option β} {x : α} {y : β} (h : Option.Rel P o o')
    (hxy : P x y) : P (o.getD x) (o'.getD y) := by
  cases h with
  | none => exact hxy
  | some h => exact h

theorem forall₂_left (h : List.Forall₂ P xs ys) {x : α} (hx : x ∈ xs) : ∃ y ∈ ys, P x y := by
  induction h with
  | nil => cases hx
  | cons hxy _ ih =>
    rcases List.mem_cons.1 hx with rfl | hx
    · exact ⟨_, List.mem_cons_self, hxy⟩
    · obtain ⟨y, hy, hxy⟩ := ih hx
      exact ⟨y, List.mem_cons_of_mem _ hy, hxy⟩

/-- `List.rel_append` as a rule that `grind` can use. -/
theorem forall₂_append {xs' : List α} {ys' : List β} (h : List.Forall₂ P xs ys)
    (h' : List.Forall₂ P xs' ys') : List.Forall₂ P (xs ++ xs') (ys ++ ys') := List.rel_append h h'

theorem forall₂_getElem? (h : List.Forall₂ P xs ys) (i : Nat) : Option.Rel P xs[i]? ys[i]? := by
  induction h generalizing i with
  | nil => exact .none
  | cons hxy _ ih =>
    cases i with
    | zero => exact .some hxy
    | succ i => exact ih i

theorem forall₂_find? {p : α → Bool} {q : β → Bool} (h : List.Forall₂ P xs ys)
    (hpq : ∀ x y, P x y → p x = q y) : Option.Rel P (xs.find? p) (ys.find? q) := by
  induction h with
  | nil => exact .none
  | @cons x y _ _ hxy _ ih =>
    rw [List.find?_cons, List.find?_cons, hpq x y hxy]
    split
    · exact .some hxy
    · exact ih

theorem forall₂_set (h : List.Forall₂ P xs ys) (i : Nat) {x : α} {y : β} (hxy : P x y) :
    List.Forall₂ P (xs.set i x) (ys.set i y) := by
  induction h generalizing i with
  | nil => exact .nil
  | cons hhead htail ih =>
    cases i with
    | zero => exact .cons hxy htail
    | succ i => exact .cons hhead (ih i)

theorem forall₂_modifyBoth {f : α → α} {g : β → β} (h : List.Forall₂ P xs ys)
    (hfg : ∀ x y, P x y → P (f x) (g y)) (i : Nat) : List.Forall₂ P (xs.modify i f) (ys.modify i g) := by
  induction h generalizing i with
  | nil => simp
  | cons hxy htail ih =>
    cases i with
    | zero => exact .cons (hfg _ _ hxy) htail
    | succ i => exact .cons hxy (ih i)

theorem forall₂_modify {R : α → α → Prop} {change : α → α} (hrefl : ∀ x, R x x)
    (hchange : ∀ x, R x (change x)) (xs : List α) (i : Nat) :
    List.Forall₂ R xs (xs.modify i change) := by
  induction xs generalizing i with
  | nil => simp
  | cons x xs ih =>
    cases i with
    | zero => exact .cons (hchange x) (List.forall₂_same.2 fun x _ => hrefl x)
    | succ i => exact .cons (hrefl x) (ih i)

theorem forall₂_trans {Q : β → γ → Prop} {R : α → γ → Prop}
    (hPQ : ∀ x y z, P x y → Q y z → R x z) {zs : List γ} (h : List.Forall₂ P xs ys)
    (h' : List.Forall₂ Q ys zs) : List.Forall₂ R xs zs := by
  induction h generalizing zs with
  | nil =>
    cases h'
    exact .nil
  | cons hxy _ ih =>
    cases h' with
    | cons hyz h' => exact .cons (hPQ _ _ _ hxy hyz) (ih h')

end RustFlow
