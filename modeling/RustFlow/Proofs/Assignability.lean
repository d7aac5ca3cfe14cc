/-
# Assignability orders the types

`Arena.Flows` says which types flow into which by rules: every type into the unknown
type, every type into itself, and a pointer, a reference or an array into another that
wraps its inside in the same way, if the inside flows.  There is no rule for tuples,
structs and enums, whose members `assignable` compares: in a canonical arena a form
stands once, so two types that agree in their parts, or in name and owner, are one type.
Hence `assignable` decides `Flows` on live types (`Canonical.assignable_iff`).

The rules compose, and they go both ways only between a type and itself.  So
assignability is a partial order with the unknown type on top, and `common` gives an
upper bound (`assignable_partialOrder`).

It is not always the least one.  Types that flow into a known type but not into each other
are forked: they are wrapped as that type is, around insides that do not flow into each
other.  Their bound is the unknown type; in all other cases the bound is the least
(`common_least`).
-/

import RustFlow.Proofs.Walks

namespace RustFlow

/-- What stands around the inside of a pointer, a reference or an array. -/
inductive Wrapper where
  | pointer (mutable : Bool)
  | reference (mutable : Bool)
  | array (length : Nat)

namespace Wrapper

/-- The form of a type with an inside. -/
def around : Wrapper → TypeId → TypeForm
  | pointer mutable, t => .pointer t mutable
  | reference mutable, t => .reference t mutable
  | array length, t => .array t length

theorem around_inj {w v : Wrapper} {x y : TypeId} (h : w.around x = v.around y) :
    w = v ∧ x = y := by
  cases w <;> cases v <;> cases h <;> exact ⟨rfl, rfl⟩

theorem parts_around (w : Wrapper) (x : TypeId) : (w.around x).parts = [x] := by
  cases w <;> rfl

end Wrapper

namespace Arena

variable {a : Arena} {s t u x y : TypeId} {w v : Wrapper}

/-- A type flows into another, by rules. -/
inductive Flows (a : Arena) : TypeId → TypeId → Prop where
  | top (s : TypeId) : Flows a s .unknown
  | refl (s : TypeId) : Flows a s s
  | inside {s t x y : TypeId} (w : Wrapper) : a.form s = w.around x → a.form t = w.around y →
      Flows a x y → Flows a s t

/-! ### Forms and parts in a canonical arena -/

theorem Ordered.form_primitive (ha : a.Ordered) {i : Nat} {f : TypeForm}
    (hf : TypeForm.primitives[i]? = some f) : a.form ⟨i⟩ = f := by
  obtain ⟨rest, hrest⟩ := ha.primitives
  refine form_of_forms ?_
  rw [← hrest, List.getElem?_append_left (List.getElem?_eq_some_iff.1 hf).1, hf]

theorem Ordered.form_unknown (ha : a.Ordered) : a.form .unknown = .unknown :=
  ha.form_primitive rfl

theorem Ordered.around_ne_unknown (ha : a.Ordered) (hs : a.form s = w.around x) : s ≠ .unknown := by
  rintro rfl
  cases w <;> cases ha.form_unknown.symm.trans hs

theorem Ordered.inside (ha : a.Ordered) (hs : a.Live s) (hf : a.form s = w.around x) :
    a.Live x ∧ x.index < s.index := by
  have hmem : x ∈ (a.form s).parts := by
    rw [hf, w.parts_around]
    exact List.mem_singleton.2 rfl
  have hlt := ha.lt_of_mem_parts hmem
  exact ⟨Nat.lt_trans hlt hs, hlt⟩

theorem Canonical.eq_of_form (ha : a.Canonical) (hs : a.Live s) (ht : a.Live t)
    (h : a.form s = a.form t) : s = t :=
  ha.eq_of_forms hs.forms (h ▸ ht.forms)

theorem Canonical.isPrimitive (ha : a.Canonical) (hs : a.Live s)
    (hf : a.form s ∈ TypeForm.primitives) (hne : s ≠ .unknown) : s.isPrimitive = true := by
  obtain ⟨i, hi⟩ := List.mem_iff_getElem?.1 hf
  have hlt := (List.getElem?_eq_some_iff.1 hi).1
  obtain rfl : s = ⟨i⟩ := ha.eq_of_form hs (ha.live_of_lt hlt) (ha.form_primitive hi).symm
  simp only [TypeId.isPrimitive, Bool.and_eq_true, decide_eq_true_eq, bne_iff_ne]
  exact ⟨hlt, hne⟩

/-! ### Flowing is an order -/

theorem Flows.eq_unknown (ha : a.Ordered) (h : a.Flows .unknown t) : t = .unknown := by
  cases h with
  | top => rfl
  | refl => rfl
  | inside w hs => exact absurd rfl (ha.around_ne_unknown hs)

theorem Flows.trans (ha : a.Ordered) (hst : a.Flows s t) (htu : a.Flows t u) : a.Flows s u := by
  induction hst generalizing u with
  | top s =>
    obtain rfl := htu.eq_unknown ha
    exact .top s
  | refl s => exact htu
  | inside w hs ht hxy ih =>
    cases htu with
    | top => exact .top _
    | refl => exact .inside w hs ht hxy
    | inside v ht' hu hyz =>
      obtain ⟨rfl, rfl⟩ := Wrapper.around_inj (ht.symm.trans ht')
      exact .inside w hs hu (ih hyz)

/-- Types that flow into each other are one type: their insides are, by induction, and a
form stands once. -/
theorem Flows.antisymm (ha : a.Canonical) (hst : a.Flows s t) (hts : a.Flows t s) (hs : a.Live s)
    (ht : a.Live t) : s = t := by
  induction hst with
  | top s => exact hts.eq_unknown ha.toOrdered
  | refl s => rfl
  | inside w hfs hft _ ih =>
    cases hts with
    | top => exact absurd rfl (ha.around_ne_unknown hfs)
    | refl => rfl
    | inside v hft' hfs' hyx =>
      obtain ⟨rfl, rfl⟩ := Wrapper.around_inj (hft.symm.trans hft')
      obtain ⟨-, rfl⟩ := Wrapper.around_inj (hfs.symm.trans hfs')
      obtain rfl := ih hyx (ha.inside hs hfs).1 (ha.inside ht hft).1
      exact ha.eq_of_form hs ht (hfs.trans hft.symm)

/-! ### What assignability decides -/

/-- Into a known type with an inside a type with an inside flows just if both are wrapped
in the same way and the one inside flows into the other. -/
theorem flows_iff_inside (ht : t ≠ .unknown) (hs : a.form s = w.around x)
    (hft : a.form t = v.around y) : a.Flows s t ↔ w = v ∧ a.Flows x y := by
  constructor
  · intro h
    cases h with
    | top => exact absurd rfl ht
    | refl =>
      obtain ⟨rfl, rfl⟩ := Wrapper.around_inj (hs.symm.trans hft)
      exact ⟨rfl, .refl x⟩
    | inside w' hs' hft' hxy =>
      obtain ⟨rfl, rfl⟩ := Wrapper.around_inj (hs.symm.trans hs')
      obtain ⟨rfl, rfl⟩ := Wrapper.around_inj (hft.symm.trans hft')
      exact ⟨rfl, hxy⟩
  · rintro ⟨rfl, hxy⟩
    exact .inside w hs hft hxy

/-- Into a known type a type without an inside flows just if their forms are equal. -/
theorem Canonical.flows_iff_form (ha : a.Canonical) (hs : a.Live s) (ht : a.Live t)
    (hne : t ≠ .unknown) (hplain : ∀ w x, a.form s ≠ Wrapper.around w x) :
    a.Flows s t ↔ a.form s = a.form t := by
  constructor
  · intro h
    cases h with
    | top => exact absurd rfl hne
    | refl => rfl
    | inside w hfs => exact absurd hfs (hplain w _)
  · intro h
    obtain rfl := ha.eq_of_form hs ht h
    exact .refl s

/-- **Assignability decides flowing**, if it may go as deep as the type does. -/
theorem Canonical.assignableWithin_iff (ha : a.Canonical) {n : Nat} (hs : a.Live s) (ht : a.Live t)
    (hn : s.index < n) : a.assignableWithin n s t = true ↔ a.Flows s t := by
  induction n generalizing s t with
  | zero => cases hn
  | succ n ih =>
    rw [assignableWithin]
    split
    · rename_i htop
      exact ⟨fun _ => htop ▸ .top s, fun _ => rfl⟩
    · rename_i htop
      have hinside {w v : Wrapper} {x y : TypeId} (hfs : a.form s = w.around x)
          (hft : a.form t = v.around y) :
          a.Flows s t ↔ w = v ∧ a.assignableWithin n x y = true := by
        obtain ⟨hx, hlt⟩ := ha.inside hs hfs
        rw [flows_iff_inside htop hfs hft, ih hx (ha.inside ht hft).1 (by omega)]
      have hnamed (hplain : ∀ w x, a.form s ≠ Wrapper.around w x) :
          a.form s = a.form t ∧ a.memberTypes s = a.memberTypes t ↔ a.Flows s t := by
        rw [ha.flows_iff_form hs ht htop hplain]
        exact ⟨And.left, fun h => ⟨h, by rw [ha.eq_of_form hs ht h]⟩⟩
      split
      · rename_i x mx y my hfs hft
        rw [hinside (w := .pointer mx) (v := .pointer my) hfs hft]
        simp
      · rename_i x mx y my hfs hft
        rw [hinside (w := .reference mx) (v := .reference my) hfs hft]
        simp
      · rename_i x lx y ly hfs hft
        rw [hinside (w := .array lx) (v := .array ly) hfs hft]
        simp
      · rename_i xs ys hfs hft
        rw [ha.flows_iff_form hs ht htop (fun w x h => by cases w <;> cases hfs.symm.trans h), hfs,
          hft]
        simp
      · rename_i nx ox ny oy hfs hft
        rw [← hnamed (fun w x h => by cases w <;> cases hfs.symm.trans h), hfs, hft]
        simp
      · rename_i nx ox ny oy hfs hft
        rw [← hnamed (fun w x h => by cases w <;> cases hfs.symm.trans h), hfs, hft]
        simp
      · rename_i hfs
        rw [ha.flows_iff_form hs ht htop (fun w x h => by cases w <;> cases hfs.symm.trans h), hfs]
        refine ⟨fun h => absurd h Bool.false_ne_true, fun h => absurd ?_ htop⟩
        exact ha.eq_of_form ht ha.live_unknown (h.symm.trans ha.form_unknown.symm)
      · rename_i hunknown hpointer hreference harray htuple hstruct henum
        simp only [Bool.and_eq_true, beq_iff_eq]
        constructor
        · rintro ⟨rfl, -⟩
          exact .refl s
        · intro h
          cases h with
          | top => exact absurd rfl htop
          | refl =>
            refine ⟨rfl, ha.isPrimitive hs ?_ htop⟩
            cases hf : a.form s with
            | unknown => exact (hunknown hf).elim
            | pointer => exact (hpointer _ _ _ _ hf hf).elim
            | reference => exact (hreference _ _ _ _ hf hf).elim
            | array => exact (harray _ _ _ _ hf hf).elim
            | tuple => exact (htuple _ _ hf hf).elim
            | struct => exact (hstruct _ _ _ _ hf hf).elim
            | enum => exact (henum _ _ _ _ hf hf).elim
            | int w => cases w <;> decide
            | uint w => cases w <;> decide
            | float w => cases w <;> decide
            | _ => decide
          | inside w hfs hft =>
            cases w with
            | pointer => exact (hpointer _ _ _ _ hfs hft).elim
            | reference => exact (hreference _ _ _ _ hfs hft).elim
            | array => exact (harray _ _ _ _ hfs hft).elim

theorem Canonical.assignable_iff (ha : a.Canonical) (hs : a.Live s) (ht : a.Live t) :
    a.assignable s t = true ↔ a.Flows s t :=
  ha.assignableWithin_iff hs ht hs.lt_depth

/-! ### The laws of assignability and of bounds -/

theorem Canonical.assignable_antisymm (ha : a.Canonical) (hs : a.Live s) (ht : a.Live t)
    (hst : a.assignable s t = true) (hts : a.assignable t s = true) : s = t :=
  ((ha.assignable_iff hs ht).1 hst).antisymm ha ((ha.assignable_iff ht hs).1 hts) hs ht

theorem common_eq_right (h : a.assignable s t = true) : a.common s t = t := by
  rw [common, if_pos h]

/-- A bound is one of the two types, which the other flows into, or the unknown type. -/
theorem common_cases (a : Arena) (s t : TypeId) :
    a.assignable s t = true ∧ a.common s t = t ∨
    a.assignable t s = true ∧ a.common s t = s ∨
    a.assignable s t = false ∧ a.assignable t s = false ∧ a.common s t = .unknown := by
  unfold common
  cases hst : a.assignable s t with
  | true => exact .inl ⟨rfl, rfl⟩
  | false =>
    cases hts : a.assignable t s with
    | true => exact .inr (.inl ⟨rfl, rfl⟩)
    | false => exact .inr (.inr ⟨rfl, rfl, rfl⟩)

theorem Canonical.common_comm (ha : a.Canonical) (hs : a.Live s) (ht : a.Live t) :
    a.common s t = a.common t s := by
  rcases common_cases a s t with ⟨hst, hc⟩ | ⟨hts, hc⟩ | ⟨hst, hts, hc⟩
  · rcases common_cases a t s with ⟨hts, hc'⟩ | ⟨-, hc'⟩ | ⟨-, hst', -⟩
    · rw [hc, hc', ha.assignable_antisymm hs ht hst hts]
    · rw [hc, hc']
    · rw [hst] at hst'
      cases hst'
  · rw [hc, common_eq_right hts]
  · rw [hc, common, hts, hst]
    rfl

/-- **Assignability is a partial order with the unknown type on top.**  In a reached arena,
over live types, it is reflexive, transitive and antisymmetric; everything flows into the
unknown type, which flows into nothing else.  The bound of two types does not depend on
their order, that of a type with itself is the type, and both types flow into it. -/
theorem assignable_partialOrder (h : Reached a) :
    (∀ s, a.Live s → a.assignable s s = true) ∧
    (∀ s t u, a.Live s → a.Live t → a.Live u → a.assignable s t = true →
      a.assignable t u = true → a.assignable s u = true) ∧
    (∀ s t, a.Live s → a.Live t → a.assignable s t = true → a.assignable t s = true → s = t) ∧
    (∀ s, a.Live s → a.assignable s .unknown = true) ∧
    (∀ t, a.Live t → a.assignable .unknown t = true → t = .unknown) ∧
    (∀ s t, a.Live s → a.Live t → a.common s t = a.common t s) ∧
    (∀ s, a.Live s → a.common s s = s) ∧
    (∀ s t, a.Live s → a.Live t →
      a.assignable s (a.common s t) = true ∧ a.assignable t (a.common s t) = true) := by
  have ha := h.canonical
  have hrefl {s : TypeId} (hs : a.Live s) : a.assignable s s = true :=
    (ha.assignable_iff hs hs).2 (.refl s)
  have htop {s : TypeId} (hs : a.Live s) : a.assignable s .unknown = true :=
    (ha.assignable_iff hs ha.live_unknown).2 (.top s)
  refine ⟨fun s hs => hrefl hs, fun s t u hs ht hu hst htu => ?_,
    fun s t hs ht => ha.assignable_antisymm hs ht, fun s hs => htop hs, fun t ht hflow => ?_,
    fun s t hs ht => ha.common_comm hs ht, fun s hs => common_eq_right (hrefl hs),
    fun s t hs ht => ?_⟩
  · rw [ha.assignable_iff hs hu]
    exact ((ha.assignable_iff hs ht).1 hst).trans ha.toOrdered ((ha.assignable_iff ht hu).1 htu)
  · exact ((ha.assignable_iff ha.live_unknown ht).1 hflow).eq_unknown ha.toOrdered
  · rcases common_cases a s t with ⟨hst, hc⟩ | ⟨hts, hc⟩ | ⟨-, -, hc⟩
    · rw [hc]
      exact ⟨hst, hrefl ht⟩
    · rw [hc]
      exact ⟨hrefl hs, hts⟩
    · rw [hc]
      exact ⟨htop hs, htop ht⟩

/-- The arena of `&&i32`, `&&untyped`, `&untyped` and a struct with a pointer to itself. -/
def nestedReferences : Arena where
  forms := TypeForm.primitives ++
    [.reference .i32 false, .reference ⟨19⟩ false, .reference .unknown false,
      .reference ⟨21⟩ false, .struct "P" ⟨0⟩, .pointer ⟨23⟩ true]
  layouts := [(⟨23⟩, .struct [⟨"next", ⟨24⟩⟩])]

theorem reached_nestedReferences : Reached nestedReferences :=
  Reached.empty.runAll (show runAll
    [.reference .i32 false, .reference ⟨19⟩ false, .reference .unknown false,
      .reference ⟨21⟩ false, .declareStruct "P" ⟨0⟩, .pointer ⟨23⟩ true,
      .defineStruct ⟨23⟩ [⟨"next", ⟨24⟩⟩]] empty = some nestedReferences by decide)

/-- There `&&i32` flows into `&&untyped` and that into `&untyped`, while neither of `&i32`
and the struct flows into the other. -/
theorem assignable_partialOrder_nestedReferences :
    Reached nestedReferences ∧
    (nestedReferences.assignable ⟨20⟩ ⟨22⟩ = true ∧ nestedReferences.assignable ⟨22⟩ ⟨21⟩ = true ∧
      nestedReferences.assignable ⟨20⟩ ⟨21⟩ = true) ∧
    nestedReferences.assignable ⟨23⟩ ⟨23⟩ = true ∧
    (nestedReferences.assignable ⟨21⟩ ⟨22⟩ = true → (⟨22⟩ : TypeId) = ⟨21⟩) ∧
    nestedReferences.common ⟨20⟩ ⟨22⟩ = nestedReferences.common ⟨22⟩ ⟨20⟩ ∧
    nestedReferences.assignable ⟨19⟩ (nestedReferences.common ⟨19⟩ ⟨23⟩) = true ∧
    nestedReferences.common ⟨19⟩ ⟨23⟩ = .unknown := by
  obtain ⟨hrefl, htrans, hanti, -, -, hcomm, -, hbound⟩ :=
    assignable_partialOrder reached_nestedReferences
  have h₁ : nestedReferences.assignable ⟨20⟩ ⟨22⟩ = true := by decide
  have h₂ : nestedReferences.assignable ⟨22⟩ ⟨21⟩ = true := by decide
  exact ⟨reached_nestedReferences,
    ⟨h₁, h₂, htrans _ _ _ (by decide) (by decide) (by decide) h₁ h₂⟩, hrefl _ (by decide),
    hanti _ _ (by decide) (by decide) h₂, hcomm _ _ (by decide) (by decide),
    (hbound _ _ (by decide) (by decide)).1, by decide⟩

/-! ### Least bounds -/

/-- Three types that are wrapped alike, where neither of the insides of the first two flows
into the other. -/
def Forked (a : Arena) (s t u : TypeId) : Prop :=
  ∃ (w : Wrapper) (x y z : TypeId), a.form s = w.around x ∧ a.form t = w.around y ∧
    a.form u = w.around z ∧ a.assignable x y = false ∧ a.assignable y x = false

theorem Canonical.assignable_eq_false_iff (ha : a.Canonical) (hs : a.Live s) (ht : a.Live t) :
    a.assignable s t = false ↔ ¬a.Flows s t := by
  rw [← Bool.not_eq_true, ha.assignable_iff hs ht]

/-- Types that flow into a known type but not into each other are forked: by no other rule
can two different types flow into a third. -/
theorem Canonical.forked (ha : a.Canonical) (hs : a.Live s) (ht : a.Live t) (hsu : a.Flows s u)
    (htu : a.Flows t u) (hst : ¬a.Flows s t) (hts : ¬a.Flows t s) (hu : u ≠ .unknown) :
    a.Forked s t u := by
  cases hsu with
  | top => exact absurd rfl hu
  | refl => exact absurd htu hts
  | @inside s u x z w hfs hfu hxz =>
    cases htu with
    | top => exact absurd rfl hu
    | refl => exact absurd (.inside w hfs hfu hxz) hst
    | @inside t u y z' v hft hfu' hyz =>
      obtain ⟨rfl, rfl⟩ := Wrapper.around_inj (hfu.symm.trans hfu')
      have hx := (ha.inside hs hfs).1
      have hy := (ha.inside ht hft).1
      refine ⟨w, x, y, z, hfs, hft, hfu, ?_, ?_⟩
      · exact (ha.assignable_eq_false_iff hx hy).2 fun hxy => hst (.inside w hfs hft hxy)
      · exact (ha.assignable_eq_false_iff hy hx).2 fun hyx => hts (.inside w hft hfs hyx)

/-- Neither of two forked types flows into the other. -/
theorem Canonical.common_of_forked (ha : a.Canonical) (hs : a.Live s) (ht : a.Live t)
    (h : a.Forked s t u) : a.common s t = .unknown := by
  obtain ⟨w, x, y, z, hfs, hft, -, hxy, hyx⟩ := h
  have hx := (ha.inside hs hfs).1
  have hy := (ha.inside ht hft).1
  rw [ha.assignable_eq_false_iff hx hy] at hxy
  rw [ha.assignable_eq_false_iff hy hx] at hyx
  have hst : a.assignable s t = false := by
    rw [ha.assignable_eq_false_iff hs ht, flows_iff_inside (ha.around_ne_unknown hft) hfs hft]
    exact fun h => hxy h.2
  have hts : a.assignable t s = false := by
    rw [ha.assignable_eq_false_iff ht hs, flows_iff_inside (ha.around_ne_unknown hfs) hft hfs]
    exact fun h => hyx h.2
  rw [common, hst, hts]
  rfl

/-- **The bound of two types is the least, unless they are forked.**  In a reached arena let
two live types flow into a third.  Their bound flows into it too, except just if the three
are wrapped alike around insides of which neither of the first two flows into the other.
Then the bound is the unknown type. -/
theorem common_least (h : Reached a) (hs : a.Live s) (ht : a.Live t) (hu : a.Live u)
    (hsu : a.assignable s u = true) (htu : a.assignable t u = true) :
    (a.assignable (a.common s t) u = true ↔ ¬a.Forked s t u) ∧
    (a.Forked s t u → a.common s t = .unknown) := by
  have ha := h.canonical
  refine ⟨⟨fun hleast hfork => ?_, fun hfork => ?_⟩, ha.common_of_forked hs ht⟩
  · rw [ha.common_of_forked hs ht hfork, ha.assignable_iff ha.live_unknown hu] at hleast
    obtain ⟨w, x, y, z, -, -, hfu, -⟩ := hfork
    exact ha.around_ne_unknown hfu (hleast.eq_unknown ha.toOrdered)
  · rcases common_cases a s t with ⟨-, hc⟩ | ⟨-, hc⟩ | ⟨hst, hts, hc⟩
    · rw [hc]
      exact htu
    · rw [hc]
      exact hsu
    · by_cases htop : u = .unknown
      · rw [hc, htop, ha.assignable_iff ha.live_unknown ha.live_unknown]
        exact .refl _
      · refine absurd (ha.forked hs ht ?_ ?_ ?_ ?_ htop) hfork
        · exact (ha.assignable_iff hs hu).1 hsu
        · exact (ha.assignable_iff ht hu).1 htu
        · exact (ha.assignable_eq_false_iff hs ht).1 hst
        · exact (ha.assignable_eq_false_iff ht hs).1 hts

/-- Of `&&i32` and `&&untyped` the bound is the least that flows into `&untyped`; `&i32` and
`&&i32` are forked below `&untyped`. -/
theorem common_least_nestedReferences :
    Reached nestedReferences ∧
    (nestedReferences.assignable ⟨20⟩ ⟨21⟩ = true ∧ nestedReferences.assignable ⟨22⟩ ⟨21⟩ = true ∧
      nestedReferences.common ⟨20⟩ ⟨22⟩ = ⟨22⟩ ∧ ¬nestedReferences.Forked ⟨20⟩ ⟨22⟩ ⟨21⟩) ∧
    nestedReferences.Forked ⟨19⟩ ⟨20⟩ ⟨21⟩ ∧
    nestedReferences.assignable (nestedReferences.common ⟨19⟩ ⟨20⟩) ⟨21⟩ = false := by
  have hfork : nestedReferences.Forked ⟨19⟩ ⟨20⟩ ⟨21⟩ :=
    ⟨.reference false, .i32, ⟨19⟩, .unknown, rfl, rfl, rfl, by decide, by decide⟩
  have hleast := common_least (s := ⟨20⟩) (t := ⟨22⟩) (u := ⟨21⟩) reached_nestedReferences
    (by decide) (by decide) (by decide) (by decide) (by decide)
  have hforked := common_least (s := ⟨19⟩) (t := ⟨20⟩) (u := ⟨21⟩) reached_nestedReferences
    (by decide) (by decide) (by decide) (by decide) (by decide)
  refine ⟨reached_nestedReferences, ⟨by decide, by decide, by decide, hleast.1.1 (by decide)⟩,
    hfork, ?_⟩
  rw [hforked.2 hfork]
  decide

/-- A bound that is not the least: `&i32` and `&&i32` flow into `&untyped`, and their bound,
the unknown type, does not. -/
theorem common_not_least :
    ¬∀ a : Arena, Reached a → ∀ s t u, a.Live s → a.Live t → a.Live u → a.assignable s u = true →
      a.assignable t u = true → a.assignable (a.common s t) u = true := by
  intro h
  have hleast := h nestedReferences reached_nestedReferences ⟨19⟩ ⟨20⟩ ⟨21⟩ (by decide) (by decide)
    (by decide) (by decide) (by decide)
  exact absurd hleast (by decide)

end Arena
end RustFlow
