/-
# Types of a file that stands elsewhere

A struct or an enum is owned by the unit of its file.  In a program of several files
that unit has other units before it.  `shift` moves the owners by the number of those
units; it changes neither the indices of types nor what is built over what, so all
that is read off a type is the same after it.

Layouts hold types by index.  Layouts are alike if they have the same members with
related types.
-/

import RustFlow.Proofs.Interning
import RustFlow.Proofs.Pointwise

namespace RustFlow

variable {R S : TypeId → TypeId → Prop} {k : Nat}

/-- The id of a unit that gets some units before it. -/
def UnitId.shift (k : Nat) (u : UnitId) : UnitId := ⟨u.index + k⟩

theorem UnitId.shift_injective (k : Nat) : Function.Injective (UnitId.shift k) := by
  rintro ⟨i⟩ ⟨j⟩ h
  have hij : i + k = j + k := congrArg UnitId.index h
  rw [Nat.add_right_cancel hij]

namespace TypeForm

variable {f g : TypeForm}

def shift (k : Nat) : TypeForm → TypeForm
  | struct name owner => struct name (owner.shift k)
  | enum name owner => enum name (owner.shift k)
  | f => f

theorem shift_zero (f : TypeForm) : f.shift 0 = f := by cases f <;> rfl

theorem parts_shift (k : Nat) (f : TypeForm) : (f.shift k).parts = f.parts := by cases f <;> rfl

theorem isNamed_shift (k : Nat) (f : TypeForm) : (f.shift k).isNamed = f.isNamed := by
  cases f <;> rfl

theorem shift_eq_self (hf : f.isNamed = false) (k : Nat) : f.shift k = f := by
  cases f with
  | struct => cases hf
  | enum => cases hf
  | _ => rfl

theorem shift_injective (k : Nat) : Function.Injective (shift k) := by
  intro f g h
  have hnamed : f.isNamed = g.isNamed := by rw [← isNamed_shift k f, h, isNamed_shift]
  cases hf : f.isNamed with
  | false => rwa [shift_eq_self hf, shift_eq_self (hnamed ▸ hf)] at h
  | true =>
    cases f with
    | struct n o =>
      cases g with
      | struct n' o' =>
        obtain ⟨rfl, ho⟩ := struct.inj h
        rw [UnitId.shift_injective k ho]
      | _ => cases h
    | enum n o =>
      cases g with
      | enum n' o' =>
        obtain ⟨rfl, ho⟩ := enum.inj h
        rw [UnitId.shift_injective k ho]
      | _ => cases h
    | _ => cases hf

end TypeForm

namespace Arena

variable {a a' b : Arena} {s t : TypeId} {f : TypeForm}

def shift (k : Nat) (a : Arena) : Arena := { a with forms := a.forms.map (TypeForm.shift k) }

theorem shift_zero (a : Arena) : a.shift 0 = a := by
  have hid : TypeForm.shift 0 = id := funext TypeForm.shift_zero
  rw [shift, hid, List.map_id]

theorem getElem?_shift (k : Nat) (a : Arena) (i : Nat) :
    (a.shift k).forms[i]? = a.forms[i]?.map (TypeForm.shift k) := List.getElem?_map ..

theorem size_shift (k : Nat) (a : Arena) : (a.shift k).size = a.size := List.length_map _

theorem live_shift : (a.shift k).Live t ↔ a.Live t := by rw [Live, Live, size_shift]

theorem form_shift (k : Nat) (a : Arena) (t : TypeId) : (a.shift k).form t = (a.form t).shift k := by
  rw [form, form, getElem?_shift]
  cases a.forms[t.index]? <;> rfl

theorem prefix_shift (k : Nat) (h : a.forms <+: a'.forms) : (a.shift k).forms <+: (a'.shift k).forms :=
  h.map _

theorem Sound.shift (ha : a.Sound) (k : Nat) : (a.shift k).Sound := by
  have hforms {i : Nat} {f : TypeForm} (hf : (a.shift k).forms[i]? = some f) :
      ∃ g, a.forms[i]? = some g ∧ f = g.shift k := by
    rw [getElem?_shift, Option.map_eq_some_iff] at hf
    obtain ⟨g, hg, rfl⟩ := hf
    exact ⟨g, hg, rfl⟩
  refine ⟨⟨⟨?_, fun i f hf t ht => ?_⟩, ha.nodup.map (TypeForm.shift_injective k)⟩,
    fun t l hl => ?_, fun t l hl x hx => live_shift.2 (ha.members t l hl x hx)⟩
  · exact ha.primitives.map (TypeForm.shift k)
  · obtain ⟨g, hg, rfl⟩ := hforms hf
    exact ha.parts_lt i g hg t (TypeForm.parts_shift k g ▸ ht)
  · obtain ⟨f, hf, hn⟩ := ha.named t l hl
    refine ⟨f.shift k, ?_, (TypeForm.isNamed_shift k f).trans hn⟩
    rw [getElem?_shift, hf, Option.map_some]

theorem same_of_isNamed (hf : a.forms[s.index]? = some f)
    (hg : b.forms[t.index]? = some (f.shift k)) (hn : f.isNamed = true) :
    Same (a.shift k) b s t := by
  refine same_of_forms ((getElem?_shift ..).trans (congrArg _ hf)) hg (.plain ?_)
  exact TypeForm.parts_of_isNamed ((TypeForm.isNamed_shift k f).trans hn)

/-- What is said of the layouts of corresponding types is to be shown of structs and enums
only. -/
theorem layout?_rel {P : Layout → Layout → Prop} (ha : a.Sound) (hb : b.Sound)
    (hst : Same (a.shift k) b s t)
    (h : ∀ f, a.forms[s.index]? = some f → b.forms[t.index]? = some (f.shift k) →
      f.isNamed = true → Option.Rel P (a.layout? s) (b.layout? t)) :
    Option.Rel P (a.layout? s) (b.layout? t) := by
  have hform := hst.form
  rw [form_shift] at hform
  have hnamed := hform.isNamed_eq
  rw [TypeForm.isNamed_shift] at hnamed
  cases hn : (a.form s).isNamed with
  | false =>
    rw [layout?_eq_none ha hn, layout?_eq_none hb (hnamed ▸ hn)]
    exact .none
  | true =>
    have hright := hst.live_right.forms
    rw [← hform.eq_of_isNamed ((TypeForm.isNamed_shift k _).trans hn)] at hright
    exact h _ (live_shift.1 hst.live_left).forms hright hn

/-! ### What is read off a type -/

theorem isStruct_shift (k : Nat) (a : Arena) (t : TypeId) : (a.shift k).isStruct t = a.isStruct t := by
  rw [isStruct, isStruct, form_shift]
  cases a.form t <;> rfl

theorem isEnum_shift (k : Nat) (a : Arena) (t : TypeId) : (a.shift k).isEnum t = a.isEnum t := by
  rw [isEnum, isEnum, form_shift]
  cases a.form t <;> rfl

theorem pointee_shift (k : Nat) (a : Arena) (t : TypeId) : (a.shift k).pointee t = a.pointee t := by
  rw [pointee, pointee, form_shift]
  cases a.form t <;> rfl

theorem peel_shift (k : Nat) (a : Arena) (t : TypeId) : (a.shift k).peel t = a.peel t := by
  have hwithin (n : Nat) (t : TypeId) : (a.shift k).peelWithin n t = a.peelWithin n t := by
    induction n generalizing t with
    | zero => rfl
    | succ n ih =>
      rw [peelWithin, peelWithin, form_shift]
      cases a.form t with
      | pointer inner => exact ih inner
      | reference inner => exact ih inner
      | _ => rfl
  rw [peel, peel, depth, size_shift]
  exact hwithin _ t

theorem display_shift (k : Nat) (a : Arena) (t : TypeId) : (a.shift k).display t = a.display t := by
  have hwithin (n : Nat) (t : TypeId) : (a.shift k).displayWithin n t = a.displayWithin n t := by
    induction n generalizing t with
    | zero => rfl
    | succ n ih =>
      rw [displayWithin, displayWithin, form_shift]
      cases a.form t <;> simp only [TypeForm.shift, ih]
      rw [funext ih]
  rw [display, display, depth, size_shift]
  exact hwithin _ t

end Arena

/-! ### Layouts -/

/-- The same field with related types. -/
structure Field.Alike (R : TypeId → TypeId → Prop) (f g : Field) : Prop where
  name : f.name = g.name
  type : R f.type g.type

/-- The same shape with related types. -/
inductive VariantShape.Alike (R : TypeId → TypeId → Prop) : VariantShape → VariantShape → Prop where
  | unit : VariantShape.Alike R .unit .unit
  | tuple {ss ts : List TypeId} : List.Forall₂ R ss ts → VariantShape.Alike R (.tuple ss) (.tuple ts)
  | struct {fs gs : List Field} : List.Forall₂ (Field.Alike R) fs gs →
      VariantShape.Alike R (.struct fs) (.struct gs)

/-- The same variant with related types. -/
structure Variant.Alike (R : TypeId → TypeId → Prop) (v w : Variant) : Prop where
  name : v.name = w.name
  shape : v.shape.Alike R w.shape

/-- The same members with related types. -/
inductive Layout.Alike (R : TypeId → TypeId → Prop) : Layout → Layout → Prop where
  | struct {fs gs : List Field} : List.Forall₂ (Field.Alike R) fs gs →
      Layout.Alike R (.struct fs) (.struct gs)
  | enum {vs ws : List Variant} : List.Forall₂ (Variant.Alike R) vs ws →
      Layout.Alike R (.enum vs) (.enum ws)

theorem Field.Alike.mono (hRS : ∀ s t, R s t → S s t) {f g : Field} (h : f.Alike R g) : f.Alike S g :=
  ⟨h.name, hRS _ _ h.type⟩

theorem VariantShape.Alike.mono (hRS : ∀ s t, R s t → S s t) {x y : VariantShape} (h : x.Alike R y) :
    x.Alike S y := by
  cases h with
  | unit => exact .unit
  | tuple h => exact .tuple (h.imp hRS)
  | struct h => exact .struct (h.imp fun _ _ => .mono hRS)

theorem Layout.Alike.mono (hRS : ∀ s t, R s t → S s t) {l l' : Layout} (h : l.Alike R l') :
    l.Alike S l' := by
  cases h with
  | struct h => exact .struct (h.imp fun _ _ => .mono hRS)
  | enum h => exact .enum (h.imp fun _ _ h => ⟨h.name, h.shape.mono hRS⟩)

theorem forall₂_types {fs gs : List Field} (h : List.Forall₂ (Field.Alike R) fs gs) :
    List.Forall₂ R (fs.map Field.type) (gs.map Field.type) := by
  rw [List.forall₂_map_left_iff, List.forall₂_map_right_iff]
  exact h.imp fun _ _ h => h.type

theorem VariantShape.Alike.types {x y : VariantShape} (h : x.Alike R y) :
    List.Forall₂ R x.types y.types := by
  cases h with
  | unit => exact .nil
  | tuple h => exact h
  | struct h => exact forall₂_types h

theorem Layout.Alike.types {l l' : Layout} (h : l.Alike R l') : List.Forall₂ R l.types l'.types := by
  cases h with
  | struct h => exact forall₂_types h
  | enum h =>
    induction h with
    | nil => exact .nil
    | cons hv _ ih => exact List.rel_append hv.shape.types ih

theorem VariantShape.alike_self {x : VariantShape} (h : ∀ t ∈ x.types, R t t) : x.Alike R x := by
  cases x with
  | unit => exact .unit
  | tuple ts => exact .tuple (List.forall₂_same.2 h)
  | struct fs => exact .struct (List.forall₂_same.2 fun f hf => ⟨rfl, h _ (List.mem_map_of_mem hf)⟩)

theorem Layout.alike_self {l : Layout} (h : ∀ t ∈ l.types, R t t) : l.Alike R l := by
  cases l with
  | struct fs => exact .struct (List.forall₂_same.2 fun f hf => ⟨rfl, h _ (List.mem_map_of_mem hf)⟩)
  | enum vs =>
    refine .enum (List.forall₂_same.2 fun v hv => ⟨rfl, VariantShape.alike_self fun t ht => ?_⟩)
    exact h t (List.mem_flatMap.2 ⟨v, hv, ht⟩)

end RustFlow
