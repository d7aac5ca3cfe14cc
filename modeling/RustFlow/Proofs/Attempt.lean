/-
# Running attempts

An `Attempt σ α` is run by applying it to a state; the result is an outcome and
the state that was reached, also after a failure.  The lemmas here run each
primitive of the monad on a state, so a proof about a computation goes step by
step: `bind_ok` cuts a successful run into the runs of its two parts, and
`bind_run` is the rule for runs that may fail.
-/

import RustFlow.Error

namespace RustFlow
namespace Attempt

variable {σ τ α β : Type}

theorem pure_run (a : α) (s : σ) : (pure a : Attempt σ α) s = (.ok a, s) := rfl

theorem throw_run (e : Error) (s : σ) : (throw e : Attempt σ α) s = (.error e, s) := rfl

theorem get_run (s : σ) : (get : Attempt σ σ) s = (.ok s, s) := rfl

theorem modify_run (f : σ → σ) (s : σ) : (modify f : Attempt σ PUnit) s = (.ok ⟨⟩, f s) := rfl

theorem modifyGet_run (f : σ → α × σ) (s : σ) :
    (modifyGet f : Attempt σ α) s = (.ok (f s).1, (f s).2) := rfl

theorem zoom_run (view : σ → τ) (put : τ → σ → σ) (m : Attempt τ α) (s : σ) :
    m.zoom view put s = ((m (view s)).1, put (m (view s)).2 s) := rfl

/-- A sequence runs its second part in the state the first one reached; a failure
of the first part is the failure of the whole. -/
theorem bind_run (m : Attempt σ α) (f : α → Attempt σ β) (s : σ) :
    (m >>= f) s =
      match m s with
      | (.ok a, s') => f a s'
      | (.error e, s') => (.error e, s') := by
  show ExceptT.bind m f s = _
  unfold ExceptT.bind ExceptT.mk
  simp only [bind, StateT.bind]
  rcases m s with ⟨_ | _, _⟩ <;> rfl

theorem map_run (m : Attempt σ α) (f : α → β) (s : σ) :
    (f <$> m) s = ((m s).1.map f, (m s).2) := by
  show ExceptT.map f m s = _
  unfold ExceptT.map ExceptT.mk
  simp only [bind, StateT.bind]
  rcases m s with ⟨_ | _, _⟩ <;> rfl

/-- **A successful sequence is two successful parts.** -/
theorem bind_ok {m : Attempt σ α} {f : α → Attempt σ β} {s s' : σ} {r : β}
    (h : (m >>= f) s = (.ok r, s')) : ∃ a s₁, m s = (.ok a, s₁) ∧ f a s₁ = (.ok r, s') := by
  rw [bind_run] at h
  split at h
  · exact ⟨_, _, ‹_›, h⟩
  · cases h

theorem map_ok {m : Attempt σ α} {f : α → β} {s s' : σ} {r : β}
    (h : (f <$> m) s = (.ok r, s')) : ∃ a, m s = (.ok a, s') ∧ f a = r := by
  rw [map_run] at h
  rcases hm : m s with ⟨e | a, s₁⟩
  · rw [hm] at h
    cases h
  · rw [hm] at h
    cases h
    exact ⟨a, rfl, rfl⟩

theorem zoom_ok {view : σ → τ} {put : τ → σ → σ} {m : Attempt τ α} {s s' : σ} {r : α}
    (h : m.zoom view put s = (.ok r, s')) :
    ∃ t, m (view s) = (.ok r, t) ∧ s' = put t s := by
  rw [zoom_run] at h
  obtain ⟨h₁, h₂⟩ := Prod.mk.inj h
  exact ⟨(m (view s)).2, Prod.ext h₁ rfl, h₂.symm⟩

end Attempt
end RustFlow
