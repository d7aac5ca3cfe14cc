/-
# Types in arenas that grew apart

The functions of a program share one arena.  What a function finds in it depends on
the functions before it, and so do the indices of the types it interns.  `Same a b s t`
says that the type at `s` in one arena is the type at `t` in another: they have the
same form over the same parts.

A body only interns composites, so structs, enums and layouts stay those of the
arena it started from (`Grown`).  In two arenas grown from one base, `Same` is a
one-to-one correspondence of the types both have, and all that lowering reads off a
type agrees for corresponding types.
-/

import RustFlow.Types.Assignable
import RustFlow.Types.Display
import Mathlib.Data.List.Forall2
import Mathlib.Data.List.Nodup

namespace RustFlow

namespace TypeForm

variable {R S : TypeId → TypeId → Prop} {f g g' : TypeForm}

/-- Whether a form is a struct or an enum. -/
def isNamed : TypeForm → Bool
  | struct _ _ => true
  | enum _ _ => true
  | _ => false

theorem parts_of_isNamed (hf : f.isNamed = true) : f.parts = [] := by
  cases f with
  | struct => rfl
  | enum => rfl
  | _ => cases hf

/-- The same form over related parts. -/
inductive Alike (R : TypeId → TypeId → Prop) : TypeForm → TypeForm → Prop where
  | plain {f : TypeForm} : f.parts = [] → Alike R f f
  | pointer {s t : TypeId} (mutable : Bool) : R s t → Alike R (.pointer s mutable) (.pointer t mutable)
  | reference {s t : TypeId} (mutable : Bool) : R s t →
      Alike R (.reference s mutable) (.reference t mutable)
  | array {s t : TypeId} (length : Nat) : R s t → Alike R (.array s length) (.array t length)
  | tuple {ss ts : List TypeId} : List.Forall₂ R ss ts → Alike R (.tuple ss) (.tuple ts)

theorem Alike.mono (h : Alike R f g) (hRS : ∀ s t, R s t → S s t) : Alike S f g := by
  cases h with
  | plain hf => exact .plain hf
  | pointer m h => exact .pointer m (hRS _ _ h)
  | reference m h => exact .reference m (hRS _ _ h)
  | array n h => exact .array n (hRS _ _ h)
  | tuple h => exact .tuple (h.imp hRS)

theorem Alike.symm (h : Alike R f g) : Alike (fun t s => R s t) g f := by
  cases h with
  | plain hf => exact .plain hf
  | pointer m h => exact .pointer m h
  | reference m h => exact .reference m h
  | array n h => exact .array n h
  | tuple h => exact .tuple h.flip

theorem alike_self (h : ∀ t ∈ f.parts, R t t) : Alike R f f := by
  cases f with
  | pointer t m => exact .pointer m (h t (List.mem_singleton.2 rfl))
  | reference t m => exact .reference m (h t (List.mem_singleton.2 rfl))
  | array t n => exact .array n (h t (List.mem_singleton.2 rfl))
  | tuple ts => exact .tuple (List.forall₂_same.2 h)
  | _ => exact .plain rfl

theorem Alike.unique (h : Alike R f g) (h' : Alike S f g')
    (hRS : ∀ s t t', R s t → S s t' → t = t') : g = g' := by
  have hplain : ∀ {f g}, f.parts = [] → Alike S f g → f = g := by
    intro f g hf h
    cases h with
    | plain => rfl
    | tuple h =>
      obtain rfl : _ = [] := hf
      cases h
      rfl
    | _ => cases hf
  cases h with
  | plain hf => exact hplain hf h'
  | pointer m h =>
    cases h' with
    | plain hf => cases hf
    | pointer _ h' => rw [hRS _ _ _ h h']
  | reference m h =>
    cases h' with
    | plain hf => cases hf
    | reference _ h' => rw [hRS _ _ _ h h']
  | array n h =>
    cases h' with
    | plain hf => cases hf
    | array _ h' => rw [hRS _ _ _ h h']
  | @tuple ss ts h =>
    cases h' with
    | plain hf =>
      obtain rfl : ss = [] := hf
      cases h
      rfl
    | @tuple _ ts' h' =>
      congr 1
      induction h generalizing ts' with
      | nil =>
        cases h'
        rfl
      | cons hst _ ih =>
        cases h' with
        | cons hst' h' => rw [hRS _ _ _ hst hst', ih h']

theorem Alike.isNamed_eq (h : Alike R f g) : f.isNamed = g.isNamed := by cases h <;> rfl

theorem Alike.eq_of_isNamed (h : Alike R f g) (hf : f.isNamed = true) : f = g := by
  cases h with
  | plain => rfl
  | _ => cases hf

theorem Alike.related (h : Alike R f g) : List.Forall₂ R f.parts g.parts := by
  cases h with
  | plain hf =>
    rw [hf]
    exact .nil
  | pointer _ h => exact .cons h .nil
  | reference _ h => exact .cons h .nil
  | array _ h => exact .cons h .nil
  | tuple h => exact h

end TypeForm

/-- The types of the members of a layout. -/
def Layout.types : Layout → List TypeId
  | .struct fs => fs.map Field.type
  | .enum vs => vs.flatMap fun v => v.shape.types

namespace Arena

variable {base a a' b b' : Arena} {f g : TypeForm} {s s' t t' : TypeId}

/-- Whether an index is not past the end. -/
def Live (a : Arena) (t : TypeId) : Prop := t.index < a.size

/-- An arena in which every type stands after its parts. -/
structure Ordered (a : Arena) : Prop where
  /-- The fixed types come first. -/
  primitives : TypeForm.primitives <+: a.forms
  parts_lt : ∀ (i : Nat) (f : TypeForm), a.forms[i]? = some f → ∀ t ∈ f.parts, t.index < i

/-- An ordered arena in which every form stands once. -/
structure Canonical (a : Arena) : Prop extends Ordered a where
  nodup : a.forms.Nodup

/-- An arena as interning builds it. -/
structure Sound (a : Arena) : Prop extends Canonical a where
  /-- Structs and enums alone have layouts. -/
  named : ∀ (t : TypeId) (l : Layout), (t, l) ∈ a.layouts → ∃ f : TypeForm,
     a.forms[t.index]? = some f ∧ f.isNamed = true
  members : ∀ (t : TypeId) (l : Layout), (t, l) ∈ a.layouts → ∀ x ∈ l.types, a.Live x

/-- An arena that came from another by interning composites. -/
structure Grown (base a : Arena) : Prop where
  sound : a.Sound
  forms : base.forms <+: a.forms
  layouts : a.layouts = base.layouts
  named : ∀ f ∈ a.forms, f.isNamed = true → f ∈ base.forms

/-- An arena that came from another without new structs or enums. -/
structure Widened (base a : Arena) : Prop where
  sound : a.Sound
  forms : base.forms <+: a.forms
  named : ∀ f ∈ a.forms, f.isNamed = true → f ∈ base.forms

theorem live_of_forms (h : a.forms[t.index]? = some f) : a.Live t :=
  (List.getElem?_eq_some_iff.1 h).1

theorem form_of_forms (h : a.forms[t.index]? = some f) : a.form t = f := by
  rw [form, h]
  rfl

theorem Live.forms (h : a.Live t) : a.forms[t.index]? = some (a.form t) := by
  rw [form, List.getElem?_eq_getElem h]
  rfl

theorem getElem?_mono {i : Nat} (h : a.forms <+: a'.forms) (hf : a.forms[i]? = some f) :
    a'.forms[i]? = some f := by
  obtain ⟨new, hnew⟩ := h
  rw [← hnew, List.getElem?_append_left (List.getElem?_eq_some_iff.1 hf).1, hf]

theorem Live.mono (h : a.Live t) (hpre : a.forms <+: a'.forms) : a'.Live t :=
  Nat.lt_of_lt_of_le h hpre.length_le

theorem Canonical.of_forms (ha : a.Canonical) (h : b.forms = a.forms) : b.Canonical :=
  ⟨⟨h ▸ ha.primitives, h ▸ ha.parts_lt⟩, h ▸ ha.nodup⟩

theorem Canonical.eq_of_forms (ha : a.Canonical) (hs : a.forms[s.index]? = some f)
    (ht : a.forms[t.index]? = some f) : s = t := by
  have h := (List.getElem?_inj (live_of_forms hs) ha.nodup).1 (hs.trans ht.symm)
  obtain ⟨i⟩ := s
  obtain ⟨j⟩ := t
  cases h
  rfl

theorem Canonical.forms_of_mem (ha : a.Canonical) (hpre : base.forms <+: a.forms)
    (hmem : f ∈ base.forms) (hf : a.forms[s.index]? = some f) : base.forms[s.index]? = some f := by
  obtain ⟨i, hi⟩ := List.mem_iff_getElem?.1 hmem
  have hat : a.forms[(⟨i⟩ : TypeId).index]? = some f := getElem?_mono hpre hi
  obtain rfl := ha.eq_of_forms hat hf
  exact hi

/-! ### Interning -/

theorem lookup_eq_some (h : a.lookup f = some t) : a.forms[t.index]? = some f := by
  obtain ⟨i, hi, rfl⟩ := Option.map_eq_some_iff.1 h
  obtain ⟨hlt, heq, -⟩ := List.idxOf?_eq_some_iff.1 hi
  exact List.getElem?_eq_some_iff.2 ⟨hlt, heq⟩

theorem lookup_eq_none : a.lookup f = none ↔ f ∉ a.forms := by
  rw [lookup, Option.map_eq_none_iff, List.idxOf?_eq_none_iff]

theorem forms_intern (a : Arena) (f : TypeForm) :
    (a.intern f).2.forms[(a.intern f).1.index]? = some f := by
  unfold intern
  split
  · exact lookup_eq_some ‹_›
  · exact List.getElem?_concat_length

theorem prefix_intern (a : Arena) (f : TypeForm) : a.forms <+: (a.intern f).2.forms := by
  unfold intern
  split
  · exact List.prefix_refl _
  · exact List.prefix_append ..

theorem layouts_intern (a : Arena) (f : TypeForm) : (a.intern f).2.layouts = a.layouts := by
  unfold intern
  split <;> rfl

theorem mem_forms_intern (h : g ∈ (a.intern f).2.forms) : g ∈ a.forms ∨ g = f := by
  unfold intern at h
  split at h
  · exact .inl h
  · simpa using h

theorem Ordered.intern (h : a.Ordered) (hparts : ∀ t ∈ f.parts, a.Live t) :
    (a.intern f).2.Ordered := by
  refine ⟨h.primitives.trans (prefix_intern a f), ?_⟩
  unfold Arena.intern
  split
  · exact h.parts_lt
  · intro i g hg t ht
    rcases Nat.lt_or_ge i a.forms.length with hi | hi
    · exact h.parts_lt i g (by rwa [List.getElem?_append_left hi] at hg) t ht
    · rw [List.getElem?_append_right hi, List.getElem?_singleton] at hg
      split at hg
      · cases hg
        exact Nat.lt_of_lt_of_le (hparts t ht) hi
      · cases hg

theorem Canonical.intern (h : a.Canonical) (hparts : ∀ t ∈ f.parts, a.Live t) :
    (a.intern f).2.Canonical := by
  refine ⟨h.toOrdered.intern hparts, ?_⟩
  unfold Arena.intern
  split
  · exact h.nodup
  · exact List.concat_eq_append ▸ h.nodup.concat (lookup_eq_none.1 ‹_›)

theorem Sound.intern (h : a.Sound) (hparts : ∀ t ∈ f.parts, a.Live t) : (a.intern f).2.Sound := by
  have hpre := prefix_intern a f
  have hlayouts := layouts_intern a f
  refine ⟨h.toCanonical.intern hparts, fun t l hl => ?_, fun t l hl x hx => ?_⟩
  · obtain ⟨g, hg, hnamed⟩ := h.named t l (hlayouts ▸ hl)
    exact ⟨g, getElem?_mono hpre hg, hnamed⟩
  · exact (h.members t l (hlayouts ▸ hl) x hx).mono hpre

theorem sound_empty : empty.Sound := by
  refine ⟨⟨⟨List.prefix_refl _, ?_⟩, by decide⟩, fun t l h => (List.not_mem_nil h).elim,
    fun t l h => (List.not_mem_nil h).elim⟩
  intro i f hf t ht
  have hall : ∀ g ∈ TypeForm.primitives, g.parts = [] := by decide
  rw [hall f (List.mem_of_getElem? hf)] at ht
  cases ht

theorem Grown.refl (h : a.Sound) : Grown a a := ⟨h, List.prefix_refl _, rfl, fun _ hf _ => hf⟩

theorem Grown.trans (h : Grown base a) (h' : Grown a b) : Grown base b :=
  ⟨h'.sound, h.forms.trans h'.forms, h'.layouts.trans h.layouts,
    fun f hf hn => h.named f (h'.named f hf hn) hn⟩

theorem Grown.intern (h : Grown base a) (hf : f.isNamed = false)
    (hparts : ∀ t ∈ f.parts, a.Live t) : Grown base (a.intern f).2 := by
  refine ⟨h.sound.intern hparts, h.forms.trans (prefix_intern a f),
    (layouts_intern a f).trans h.layouts, fun g hg hn => ?_⟩
  rcases mem_forms_intern hg with hg | rfl
  · exact h.named g hg hn
  · rw [hf] at hn
    cases hn

theorem Grown.widened (h : Grown base a) : Widened base a := ⟨h.sound, h.forms, h.named⟩

theorem Widened.refl (h : a.Sound) : Widened a a := (Grown.refl h).widened

theorem Widened.trans (h : Widened base a) (h' : Widened a b) : Widened base b :=
  ⟨h'.sound, h.forms.trans h'.forms, fun f hf hn => h.named f (h'.named f hf hn) hn⟩

theorem Grown.forms_of_isNamed (h : Grown base a) (hf : a.forms[s.index]? = some f)
    (hn : f.isNamed = true) : base.forms[s.index]? = some f :=
  h.sound.forms_of_mem h.forms (h.named f (List.mem_of_getElem? hf) hn) hf

theorem Canonical.lookup_eq (ha : a.Canonical) (hpre : base.forms <+: a.forms)
    (hf : f ∈ a.forms → f ∈ base.forms) : a.lookup f = base.lookup f := by
  cases hbase : base.lookup f with
  | none =>
    rw [lookup_eq_none] at hbase ⊢
    exact fun hmem => hbase (hf hmem)
  | some t =>
    have hat := getElem?_mono hpre (lookup_eq_some hbase)
    cases hlook : a.lookup f with
    | none => exact absurd (List.mem_of_getElem? hat) (lookup_eq_none.1 hlook)
    | some u => rw [ha.eq_of_forms (lookup_eq_some hlook) hat]

theorem Widened.lookup_named (h : Widened base a) (hf : f.isNamed = true) :
    a.lookup f = base.lookup f :=
  h.sound.lookup_eq h.forms fun hmem => h.named f hmem hf

theorem Widened.findNamed_eq (h : Widened base a) (name : String) (owner : UnitId) :
    a.findNamed name owner = base.findNamed name owner := by
  rw [findNamed, findNamed, findStruct, findStruct, findEnum, findEnum, h.lookup_named rfl,
    h.lookup_named rfl]

/-! ### Corresponding types -/

/-- The type at an index of one arena is that at an index of another. -/
inductive Same (a b : Arena) : TypeId → TypeId → Prop where
  | mk {s t : TypeId} {f g : TypeForm} (R : TypeId → TypeId → Prop) :
      (∀ s t, R s t → Same a b s t) → a.forms[s.index]? = some f → b.forms[t.index]? = some g →
      f.Alike R g → Same a b s t

theorem same_of_forms (hf : a.forms[s.index]? = some f) (hg : b.forms[t.index]? = some g)
    (h : f.Alike (Same a b) g) : Same a b s t := .mk _ (fun _ _ h => h) hf hg h

theorem Same.form (h : Same a b s t) : (a.form s).Alike (Same a b) (b.form t) := by
  cases h with
  | mk R hR hf hg h =>
    rw [form_of_forms hf, form_of_forms hg]
    exact h.mono hR

theorem Same.live_left (h : Same a b s t) : a.Live s := by
  cases h with
  | mk _ _ hf _ _ => exact live_of_forms hf

theorem Same.live_right (h : Same a b s t) : b.Live t := by
  cases h with
  | mk _ _ _ hg _ => exact live_of_forms hg

theorem Same.mono (h : Same a b s t) (ha : a.forms <+: a'.forms) (hb : b.forms <+: b'.forms) :
    Same a' b' s t := by
  induction h with
  | mk R _ hf hg h ih => exact .mk R ih (getElem?_mono ha hf) (getElem?_mono hb hg) h

theorem Same.symm (h : Same a b s t) : Same b a t s := by
  induction h with
  | mk R _ hf hg h ih => exact .mk (fun t s => R s t) (fun t s => ih s t) hg hf h.symm

theorem Same.right_unique (hb : b.Sound) (h : Same a b s t) (h' : Same a b s t') : t = t' := by
  induction h generalizing t' with
  | mk R hR hf hg h ih =>
    cases h' with
    | mk S hS hf' hg' h' =>
      cases hf.symm.trans hf'
      have hgg := h.unique h' fun s t u hst hsu => ih s t hst (hS s u hsu)
      exact hb.eq_of_forms (hgg ▸ hg) hg'

/-- **Two types correspond to equal types or to different ones together.** -/
theorem Same.eq_iff (ha : a.Sound) (hb : b.Sound) (h : Same a b s t) (h' : Same a b s' t') :
    s = s' ↔ t = t' := by
  constructor
  · rintro rfl
    exact h.right_unique hb h'
  · rintro rfl
    exact h.symm.right_unique ha h'.symm

theorem same_of_base (hbase : base.Sound) (ha : base.forms <+: a.forms)
    (hb : base.forms <+: b.forms) (h : base.Live t) : Same a b t t := by
  obtain ⟨i⟩ := t
  induction i using Nat.strongRecOn with
  | ind i ih =>
    have hf := h.forms
    refine same_of_forms (getElem?_mono ha hf) (getElem?_mono hb hf) ?_
    refine TypeForm.alike_self fun u hu => ?_
    have hlt := hbase.parts_lt _ _ hf u hu
    exact ih u.index hlt (Nat.lt_trans hlt h)

/-! ### What is read off a type -/

theorem Same.isStruct_eq (h : Same a b s t) : a.isStruct s = b.isStruct t := by
  have h := h.form
  unfold isStruct
  generalize a.form s = f at h ⊢
  generalize b.form t = g at h ⊢
  cases h <;> rfl

theorem Same.isEnum_eq (h : Same a b s t) : a.isEnum s = b.isEnum t := by
  have h := h.form
  unfold isEnum
  generalize a.form s = f at h ⊢
  generalize b.form t = g at h ⊢
  cases h <;> rfl

theorem layout?_eq_none (ha : a.Sound) (ht : (a.form t).isNamed = false) : a.layout? t = none := by
  rw [layout?, List.lookup_eq_none_iff]
  rintro ⟨u, l⟩ hl
  obtain ⟨f, hf, hn⟩ := ha.named u l hl
  rw [bne_iff_ne]
  rintro rfl
  rw [form_of_forms hf, hn] at ht
  cases ht

theorem same_of_lt (ha : a.Sound) (hb : b.Sound) {i : Nat} (hi : i < TypeForm.primitives.length) :
    Same a b ⟨i⟩ ⟨i⟩ := same_of_base sound_empty ha.primitives hb.primitives hi

theorem same_unknown (ha : a.Sound) (hb : b.Sound) : Same a b .unknown .unknown :=
  same_of_lt ha hb (by decide)

theorem Same.pointee (ha : a.Sound) (hb : b.Sound) (h : Same a b s t) :
    Same a b (a.pointee s) (b.pointee t) := by
  have h := h.form
  unfold Arena.pointee
  generalize a.form s = f at h ⊢
  generalize b.form t = g at h ⊢
  cases h with
  | plain hf =>
    cases f with
    | pointer => cases hf
    | reference => cases hf
    | _ => exact same_unknown ha hb
  | pointer _ h => exact h
  | reference _ h => exact h
  | array => exact same_unknown ha hb
  | tuple => exact same_unknown ha hb

/-- Walks through the arenas keep step while their fuel covers the index. -/
theorem Same.peelWithin (ha : a.Sound) (hb : b.Sound) (h : Same a b s t) {n m : Nat}
    (hn : s.index < n) (hm : t.index < m) : Same a b (a.peelWithin n s) (b.peelWithin m t) := by
  induction h generalizing n m with
  | @mk s t f g R hR hf hg h ih =>
    cases n with
    | zero => cases hn
    | succ n =>
      cases m with
      | zero => cases hm
      | succ m =>
        have hsame : Same a b s t := .mk R hR hf hg h
        have hleft := ha.parts_lt _ _ hf
        have hright := hb.parts_lt _ _ hg
        simp only [Arena.peelWithin, form_of_forms hf, form_of_forms hg]
        cases h with
        | plain hplain =>
          cases f with
          | pointer => cases hplain
          | reference => cases hplain
          | _ => exact hsame
        | @pointer x y _ hxy =>
          have hx := hleft x (List.mem_singleton.2 rfl)
          have hy := hright y (List.mem_singleton.2 rfl)
          exact ih x y hxy (Nat.lt_of_lt_of_le hx (Nat.le_of_lt_succ hn))
            (Nat.lt_of_lt_of_le hy (Nat.le_of_lt_succ hm))
        | @reference x y _ hxy =>
          have hx := hleft x (List.mem_singleton.2 rfl)
          have hy := hright y (List.mem_singleton.2 rfl)
          exact ih x y hxy (Nat.lt_of_lt_of_le hx (Nat.le_of_lt_succ hn))
            (Nat.lt_of_lt_of_le hy (Nat.le_of_lt_succ hm))
        | array => exact hsame
        | tuple => exact hsame

theorem Live.lt_depth (h : a.Live t) : t.index < a.depth := Nat.lt_succ_of_lt h

theorem Same.peel (ha : a.Sound) (hb : b.Sound) (h : Same a b s t) :
    Same a b (a.peel s) (b.peel t) :=
  h.peelWithin ha hb h.live_left.lt_depth h.live_right.lt_depth

theorem Same.displayWithin_eq (ha : a.Sound) (hb : b.Sound) (h : Same a b s t) {n m : Nat}
    (hn : s.index < n) (hm : t.index < m) : a.displayWithin n s = b.displayWithin m t := by
  induction h generalizing n m with
  | @mk s t f g R hR hf hg h ih =>
    cases n with
    | zero => cases hn
    | succ n =>
      cases m with
      | zero => cases hm
      | succ m =>
        have hparts : ∀ x y, x ∈ f.parts → y ∈ g.parts → R x y →
            a.displayWithin n x = b.displayWithin m y := by
          intro x y hx hy hxy
          exact ih x y hxy (Nat.lt_of_lt_of_le (ha.parts_lt _ _ hf x hx) (Nat.le_of_lt_succ hn))
            (Nat.lt_of_lt_of_le (hb.parts_lt _ _ hg y hy) (Nat.le_of_lt_succ hm))
        simp only [displayWithin, form_of_forms hf, form_of_forms hg]
        cases h with
        | plain hplain =>
          cases f with
          | pointer => cases hplain
          | reference => cases hplain
          | array => cases hplain
          | tuple ts =>
            obtain rfl : ts = [] := hplain
            rfl
          | _ => rfl
        | @pointer x y _ hxy =>
          dsimp only
          rw [hparts x y (List.mem_singleton.2 rfl) (List.mem_singleton.2 rfl) hxy]
        | @reference x y _ hxy =>
          dsimp only
          rw [hparts x y (List.mem_singleton.2 rfl) (List.mem_singleton.2 rfl) hxy]
        | @array x y _ hxy =>
          dsimp only
          rw [hparts x y (List.mem_singleton.2 rfl) (List.mem_singleton.2 rfl) hxy]
        | @tuple xs ys hall =>
          have hmap : ∀ xs' ys', List.Forall₂ R xs' ys' → xs' ⊆ xs → ys' ⊆ ys →
              xs'.map (a.displayWithin n) = ys'.map (b.displayWithin m) := by
            intro xs' ys' hall hxs hys
            induction hall with
            | nil => rfl
            | cons hxy _ ih' =>
              rw [List.map_cons, List.map_cons, ih' (List.subset_of_cons_subset hxs)
                (List.subset_of_cons_subset hys),
                hparts _ _ (hxs List.mem_cons_self) (hys List.mem_cons_self) hxy]
          dsimp only
          rw [hmap xs ys hall (List.Subset.refl _) (List.Subset.refl _)]

/-- **Corresponding types have one text.** -/
theorem Same.display_eq (ha : a.Sound) (hb : b.Sound) (h : Same a b s t) :
    a.display s = b.display t :=
  h.displayWithin_eq ha hb h.live_left.lt_depth h.live_right.lt_depth

end Arena
end RustFlow
