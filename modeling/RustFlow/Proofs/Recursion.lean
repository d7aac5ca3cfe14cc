/-
# Recursion without a bound

A function that calls itself is given by its step: what one call does with the results of
the calls that it makes.  `turns step n` answers the calls that go at most `n` deep, and
`recursion step` those that go to any depth, so that `none` says that a call never ends.

If each result of a step relies on finitely many calls (`Relies`), then deeper turns keep
the results of the others (`turns_mono`), and the recursion solves its own equation
(`recursion_eq`).  Steps that are built of calls in sequence and of calls for all members
of a list rely on finitely many.
-/

namespace RustFlow

variable {α β γ δ : Type}

/-- The results of calls that go at most so deep. -/
def turns (step : (α → Option β) → α → Option β) : Nat → α → Option β
  | 0, _ => none
  | n + 1, x => step (turns step n) x

open Classical in
/-- The results of calls that go to some depth. -/
noncomputable def recursion (step : (α → Option β) → α → Option β) (x : α) : Option β :=
  if h : ∃ n, (turns step n x).isSome = true then turns step h.choose x else none

/-! ### Finitely many calls -/

/-- A result relies on the results of finitely many calls. -/
def Relies (c : (α → Option β) → Option γ) : Prop :=
  ∀ (call : α → Option β) (v : γ), c call = some v →
    ∃ asked : List α, ∀ call' : α → Option β,
      (∀ x ∈ asked, ∀ u, call x = some u → call' x = some u) → c call' = some v

theorem relies_const (r : Option γ) : Relies fun _ : α → Option β => r :=
  fun _ _ hv => ⟨[], fun _ _ => hv⟩

theorem relies_call (x : α) : Relies fun call : α → Option β => call x :=
  fun _ v hv => ⟨[x], fun _ hkeep => hkeep x List.mem_cons_self v hv⟩

theorem Relies.bind {c : (α → Option β) → Option γ} {k : γ → (α → Option β) → Option δ}
    (hc : Relies c) (hk : ∀ y, Relies (k y)) :
    Relies fun call => (c call).bind fun y => k y call := by
  intro call v hv
  obtain ⟨y, hy, hv⟩ := Option.bind_eq_some_iff.1 hv
  obtain ⟨asked, hasked⟩ := hc call y hy
  obtain ⟨asked', hasked'⟩ := hk y call v hv
  refine ⟨asked ++ asked', fun call' hkeep => Option.bind_eq_some_iff.2 ⟨y, ?_, ?_⟩⟩
  · exact hasked call' fun x hx => hkeep x (List.mem_append_left _ hx)
  · exact hasked' call' fun x hx => hkeep x (List.mem_append_right _ hx)

theorem relies_mapM (xs : List α) : Relies fun call : α → Option β => xs.mapM call := by
  induction xs with
  | nil => exact relies_const (some [])
  | cons x xs ih =>
    simp only [List.mapM_cons]
    exact (relies_call x).bind fun y => ih.bind fun ys => relies_const (some (y :: ys))

/-! ### The equation of a recursion -/

section Equation

variable {step : (α → Option β) → α → Option β} (hstep : ∀ x, Relies fun call => step call x)
include hstep

theorem turns_mono {n m : Nat} (hnm : n ≤ m) {x : α} {v : β} (hv : turns step n x = some v) :
    turns step m x = some v := by
  induction n generalizing m x v with
  | zero => cases hv
  | succ n ih =>
    cases m with
    | zero => cases hnm
    | succ m =>
      obtain ⟨asked, hasked⟩ := hstep x _ v hv
      exact hasked _ fun y _ u hu => ih (Nat.le_of_succ_le_succ hnm) hu

theorem recursion_of_turns {n : Nat} {x : α} {v : β} (hv : turns step n x = some v) :
    recursion step x = some v := by
  have hends : ∃ n, (turns step n x).isSome = true := ⟨n, by rw [hv]; rfl⟩
  rw [recursion, dif_pos hends]
  obtain ⟨u, hu⟩ := Option.isSome_iff_exists.1 hends.choose_spec
  have hall := turns_mono hstep (Nat.le_max_left n hends.choose) hv
  rwa [hu, ← turns_mono hstep (Nat.le_max_right n hends.choose) hu]

omit hstep in
theorem exists_turns {x : α} {v : β} (hv : recursion step x = some v) :
    ∃ n, turns step n x = some v := by
  rw [recursion] at hv
  split at hv
  · exact ⟨_, hv⟩
  · cases hv

theorem exists_turns_forall (asked : List α) :
    ∃ n, ∀ x ∈ asked, ∀ v, recursion step x = some v → turns step n x = some v := by
  induction asked with
  | nil => exact ⟨0, fun x hx => by cases hx⟩
  | cons y asked ih =>
    obtain ⟨n, hn⟩ := ih
    cases hy : recursion step y with
    | none =>
      refine ⟨n, fun x hx v hv => ?_⟩
      rcases List.mem_cons.1 hx with rfl | hx
      · cases hy.symm.trans hv
      · exact hn x hx v hv
    | some u =>
      obtain ⟨m, hm⟩ := exists_turns hy
      refine ⟨max m n, fun x hx v hv => ?_⟩
      rcases List.mem_cons.1 hx with rfl | hx
      · exact turns_mono hstep (Nat.le_max_left m n) (hm.trans (hy.symm.trans hv))
      · exact turns_mono hstep (Nat.le_max_right m n) (hn x hx v hv)

/-- **A recursion solves its equation.** -/
theorem recursion_eq (x : α) : recursion step x = step (recursion step) x := by
  refine Option.ext fun v => ⟨fun hv => ?_, fun hv => ?_⟩
  · obtain ⟨n, hn⟩ := exists_turns hv
    cases n with
    | zero => cases hn
    | succ n =>
      obtain ⟨asked, hasked⟩ := hstep x _ v hn
      exact hasked _ fun y _ u hu => recursion_of_turns hstep hu
  · obtain ⟨asked, hasked⟩ := hstep x _ v hv
    obtain ⟨n, hn⟩ := exists_turns_forall hstep asked
    have hturn : turns step (n + 1) x = some v :=
      hasked (turns step n) fun y hy u hu => hn y hy u hu
    exact recursion_of_turns hstep hturn

end Equation

end RustFlow
