/-
# Type texts are unambiguous inside a module

The text of a type is put together from the texts of its parts: markers `*` and `&`, with
`mut` or not, stand before a part, brackets around parts, and a leaf is a word.  Such a text can
be read in one way only, if no two leaves are the same word.  In a module, where structs and
enums have one owner and no name is both, they are not.

The argument goes along the order of the arena.  Two texts that are equal, each followed by a
bracket or a separator, start with the same character, which tells the forms apart; then they
are equal part by part (`Canonical.eq_of_text`).  Two places need care.  `*mut T` is not a
pointer to something that starts with `mut `, since a word is followed by no space; and `(T)`
with one part is not the unit type `()`, since no text starts with a closing bracket.
-/

import RustFlow.Proofs.Permanence
import RustFlow.Proofs.Splitting

namespace RustFlow

open Text

/-! ### Texts of forms -/

namespace TypeForm

variable {f g : TypeForm} {sub sub' : TypeId → String}

/-- The text of a form over the texts of its parts. -/
def text (sub : TypeId → String) : TypeForm → String
  | unknown => "untyped"
  | unit => "()"
  | bool => "bool"
  | char => "char"
  | str => "str"
  | int w => "i" ++ w.suffix
  | uint w => "u" ++ w.suffix
  | float w => w.name
  | pointer t m => "*" ++ Arena.mutMarker m ++ sub t
  | reference t m => "&" ++ Arena.mutMarker m ++ sub t
  | array t n => "[" ++ sub t ++ "; " ++ toString n ++ "]"
  | tuple ts => "(" ++ ", ".intercalate (ts.map sub) ++ ")"
  | struct name _ => name
  | enum name _ => name

/-- The text of a form that is a single word. -/
def word? : TypeForm → Option String
  | unknown => some "untyped"
  | bool => some "bool"
  | char => some "char"
  | str => some "str"
  | int w => some ("i" ++ w.suffix)
  | uint w => some ("u" ++ w.suffix)
  | float w => some w.name
  | struct name _ => some name
  | enum name _ => some name
  | unit | pointer _ _ | reference _ _ | array _ _ | tuple _ => none

theorem text_congr (h : ∀ t ∈ f.parts, sub t = sub' t) : f.text sub = f.text sub' := by
  cases f with
  | pointer t m =>
    simp only [text]
    rw [h t (List.mem_singleton.2 rfl)]
  | reference t m =>
    simp only [text]
    rw [h t (List.mem_singleton.2 rfl)]
  | array t n =>
    simp only [text]
    rw [h t (List.mem_singleton.2 rfl)]
  | tuple ts =>
    have hmap : ts.map sub = ts.map sub' := List.map_congr_left h
    simp only [text]
    rw [hmap]
  | _ => rfl

theorem text_of_word? {w : String} (h : f.word? = some w) : f.text sub = w := by
  cases f with
  | unit | pointer | reference | array | tuple => cases h
  | _ => exact Option.some.inj h

theorem head_of_word?_eq_none (h : f.word? = none) (sub : TypeId → String) :
    ∃ c cs, (f.text sub).toList = c :: cs ∧ c ∈ ['(', '*', '&', '['] := by
  cases f with
  | unit => exact ⟨'(', [')'], by simp [text], by decide⟩
  | pointer t m => exact ⟨'*', _, by simp [text]; rfl, by decide⟩
  | reference t m => exact ⟨'&', _, by simp [text]; rfl, by decide⟩
  | array t n => exact ⟨'[', _, by simp [text]; rfl, by decide⟩
  | tuple ts => exact ⟨'(', _, by simp [text]; rfl, by decide⟩
  | _ => cases h

end TypeForm

namespace Arena

variable {a : Arena} {s t : TypeId} {r r' : List Char}

theorem displayWithin_succ (a : Arena) (n : Nat) (t : TypeId) :
    a.displayWithin (n + 1) t = (a.form t).text (a.displayWithin n) := by
  rw [displayWithin]
  cases a.form t <;> rfl

/-- **The text of a type is that of its form over the texts of its parts.** -/
theorem Ordered.display_form (ha : a.Ordered) (t : TypeId) :
    a.display t = (a.form t).text a.display := by
  rw [display, depth, displayWithin_succ]
  refine TypeForm.text_congr fun s hs => ?_
  by_cases ht : a.Live t
  · have hlt := ha.lt_of_mem_parts hs
    have hsize : t.index < a.size := ht
    exact ha.displayWithin_eq (List.prefix_refl _) (ha.live_part ht hs) (by omega)
      (by unfold depth; omega)
  · rw [form_of_not_live ht] at hs
    cases hs

/-! ### Telling types apart -/

/-- An arena in which words tell the leaves apart, and tuples have parts. -/
structure Worded (a : Arena) : Prop where
  word : ∀ f ∈ a.forms, ∀ w, f.word? = some w → w ≠ "" ∧ ∀ c ∈ w.toList, isWordChar c = true
  unique : ∀ f ∈ a.forms, ∀ g ∈ a.forms, ∀ w, f.word? = some w → g.word? = some w → f = g
  parts : .tuple [] ∉ a.forms

/-- What may follow the text of a type: nothing, a separator or a closing bracket. -/
def EndsType (r : List Char) : Prop := ∀ c ∈ r.head?, c ∈ [',', ';', ')', ']']

theorem EndsType.not_isWordChar (hr : EndsType r) : ∀ c ∈ r.head?, isWordChar c = false := by
  have hall : ∀ c ∈ [',', ';', ')', ']'], isWordChar c = false := forall_mem_of_all (by decide)
  exact fun c hc => hall c (hr c hc)

theorem endsType_cons {c : Char} (hc : c ∈ [',', ';', ')', ']']) (r : List Char) :
    EndsType (c :: r) := by
  intro d hd
  obtain rfl := Option.some.inj hd
  exact hc

theorem mem_forms (ht : a.Live t) : a.form t ∈ a.forms := List.mem_of_getElem? ht.forms

/-- The first character of a text is that of a word, or a marker or opening bracket. -/
theorem Worded.head_display (hw : a.Worded) (ha : a.Ordered) (ht : a.Live t) :
    ∃ c cs, (a.display t).toList = c :: cs ∧ (isWordChar c = true ∨ c ∈ ['(', '*', '&', '[']) := by
  rw [ha.display_form]
  cases hword : (a.form t).word? with
  | none =>
    obtain ⟨c, cs, htext, hc⟩ := TypeForm.head_of_word?_eq_none hword a.display
    exact ⟨c, cs, htext, .inr hc⟩
  | some w =>
    obtain ⟨hne, hchars⟩ := hw.word _ (mem_forms ht) w hword
    rw [TypeForm.text_of_word? hword]
    cases htext : w.toList with
    | nil => exact absurd (String.toList_eq_nil_iff.1 htext) hne
    | cons c cs => exact ⟨c, cs, rfl, .inl (hchars c (htext ▸ List.mem_cons_self))⟩

/-- No text of a type, with what may follow it, starts with `mut `. -/
theorem Worded.not_mut (hw : a.Worded) (ha : a.Ordered) (ht : a.Live t) (hr : EndsType r)
    (u : List Char) : (a.display t).toList ++ r ≠ "mut ".toList ++ u := by
  intro h
  rw [ha.display_form] at h
  cases hword : (a.form t).word? with
  | none =>
    obtain ⟨c, cs, htext, hc⟩ := TypeForm.head_of_word?_eq_none hword a.display
    rw [htext] at h
    obtain ⟨rfl, -⟩ := List.cons_eq_cons.1 h
    revert hc
    decide
  | some w =>
    obtain ⟨-, hchars⟩ := hw.word _ (mem_forms ht) w hword
    rw [TypeForm.text_of_word? hword] at h
    have hsplit : w.toList ++ r = "mut".toList ++ ' ' :: u := h
    obtain ⟨-, rfl⟩ := append_inj_of_all hchars (forall_mem_of_all (by decide))
      hr.not_isWordChar (by simp; decide) hsplit
    have := hr ' ' rfl
    revert this
    decide

theorem mutMarker_inj {m m' : Bool} {u u' : List Char} (hu : ∀ z, u ≠ "mut ".toList ++ z)
    (hu' : ∀ z, u' ≠ "mut ".toList ++ z)
    (h : (mutMarker m).toList ++ u = (mutMarker m').toList ++ u') : m = m' ∧ u = u' := by
  cases m with
  | false =>
    cases m' with
    | false => exact ⟨rfl, h⟩
    | true => exact absurd h (hu _)
  | true =>
    cases m' with
    | false => exact absurd h.symm (hu' _)
    | true => exact ⟨rfl, List.append_cancel_left h⟩

theorem Worded.word_ne_composite (hw : a.Worded) {f g : TypeForm} {w : String} (hf : f ∈ a.forms)
    (hfw : f.word? = some w) (hgw : g.word? = none) (sub : TypeId → String) :
    w.toList ++ r ≠ (g.text sub).toList ++ r' := by
  obtain ⟨hne, hchars⟩ := hw.word f hf w hfw
  obtain ⟨c, cs, htext, hc⟩ := TypeForm.head_of_word?_eq_none hgw sub
  rw [htext]
  cases hword : w.toList with
  | nil => exact absurd (String.toList_eq_nil_iff.1 hword) hne
  | cons d ds =>
    intro h
    obtain ⟨rfl, -⟩ := List.cons_eq_cons.1 h
    have hmark : ∀ c ∈ ['(', '*', '&', '['], isWordChar c = false := forall_mem_of_all (by decide)
    cases (hchars d (hword ▸ List.mem_cons_self)).symm.trans (hmark d hc)

/-- The parts of two forms that can be told apart by their texts. -/
def ToldApart (a : Arena) (xs ys : List TypeId) : Prop :=
  ∀ x ∈ xs, ∀ y ∈ ys, ∀ u u', EndsType u → EndsType u' →
    (a.display x).toList ++ u = (a.display y).toList ++ u' → x = y ∧ u = u'

theorem Worded.marked_inj (hw : a.Worded) (ha : a.Ordered) {x y : TypeId} {m m' : Bool}
    (hx : a.Live x) (hy : a.Live y) (hpart : a.ToldApart [x] [y]) (hr : EndsType r)
    (hr' : EndsType r') (h : (mutMarker m).toList ++ ((a.display x).toList ++ r) =
      (mutMarker m').toList ++ ((a.display y).toList ++ r')) : m = m' ∧ x = y ∧ r = r' := by
  obtain ⟨rfl, hrest⟩ := mutMarker_inj (hw.not_mut ha hx hr) (hw.not_mut ha hy hr') h
  exact ⟨rfl, hpart x (List.mem_singleton.2 rfl) y (List.mem_singleton.2 rfl) _ _ hr hr' hrest⟩

theorem Worded.listed_inj (hw : a.Worded) (ha : a.Ordered) {xs ys : List TypeId}
    (hxs : ∀ x ∈ xs, a.Live x) (hys : ∀ y ∈ ys, a.Live y) (hpart : a.ToldApart xs ys)
    (h : (", ".intercalate (xs.map a.display)).toList ++ ')' :: r =
      (", ".intercalate (ys.map a.display)).toList ++ ')' :: r') : xs = ys ∧ r = r' := by
  have hclose : ∀ c, isWordChar c = true ∨ c ∈ ['(', '*', '&', '['] → c ≠ ')' := by
    rintro c hc rfl
    revert hc
    decide
  have hopen {x : TypeId} (hx : a.Live x) (u v : List Char) :
      (a.display x).toList ++ u ≠ ')' :: v := by
    obtain ⟨c, cs, htext, hc⟩ := hw.head_display ha hx
    rw [htext]
    intro heq
    exact hclose c hc (List.cons_eq_cons.1 heq).1
  rw [String.toList_intercalate, String.toList_intercalate, List.map_map, List.map_map] at h
  obtain ⟨heq, hrest⟩ := intercalate_inj hpart (fun u => endsType_cons (by decide) _)
    (endsType_cons (by decide) r) (endsType_cons (by decide) r') (by simp) (by simp)
    (fun x hx u => hopen (hxs x hx) u r') (fun y hy u => hopen (hys y hy) u r) h
  exact ⟨heq, (List.cons_eq_cons.1 hrest).2⟩

/-- What tells forms apart whose parts can be told apart: the first character, then the parts in
order. -/
theorem Worded.eq_of_text (hw : a.Worded) (ha : a.Ordered) {f g : TypeForm} (hf : f ∈ a.forms)
    (hg : g ∈ a.forms) (hfs : ∀ x ∈ f.parts, a.Live x) (hgs : ∀ y ∈ g.parts, a.Live y)
    (hpart : a.ToldApart f.parts g.parts) (hr : EndsType r) (hr' : EndsType r')
    (h : (f.text a.display).toList ++ r = (g.text a.display).toList ++ r') : f = g ∧ r = r' := by
  cases hfw : f.word? with
  | some w =>
    rw [TypeForm.text_of_word? hfw] at h
    cases hgw : g.word? with
    | some w' =>
      rw [TypeForm.text_of_word? hgw] at h
      obtain ⟨hword, hrest⟩ := append_inj_of_all (hw.word f hf w hfw).2 (hw.word g hg w' hgw).2
        hr.not_isWordChar hr'.not_isWordChar h
      rw [String.toList_inj] at hword
      exact ⟨hw.unique f hf g hg w hfw (hword ▸ hgw), hrest⟩
    | none => exact absurd h (hw.word_ne_composite hf hfw hgw _)
  | none =>
    cases hgw : g.word? with
    | some w =>
      rw [TypeForm.text_of_word? hgw] at h
      exact absurd h.symm (hw.word_ne_composite hg hgw hfw _)
    | none =>
      cases f with
      | unit =>
        cases g with
        | unit => exact ⟨rfl, by simpa [TypeForm.text] using h⟩
        | tuple ys =>
          have hlist : (", ".intercalate (([] : List TypeId).map a.display)).toList ++ ')' :: r =
              (", ".intercalate (ys.map a.display)).toList ++ ')' :: r' := by
            simpa [TypeForm.text] using h
          obtain ⟨rfl, -⟩ := hw.listed_inj ha hfs hgs hpart hlist
          exact absurd hg hw.parts
        | pointer | reference | array => simp [TypeForm.text] at h
        | _ => cases hgw
      | pointer x m =>
        cases g with
        | pointer y m' =>
          have hmark : (mutMarker m).toList ++ ((a.display x).toList ++ r) =
              (mutMarker m').toList ++ ((a.display y).toList ++ r') := by
            simpa [TypeForm.text] using h
          obtain ⟨rfl, rfl, hrest⟩ := hw.marked_inj ha (hfs x (List.mem_singleton.2 rfl))
            (hgs y (List.mem_singleton.2 rfl)) hpart hr hr' hmark
          exact ⟨rfl, hrest⟩
        | unit | reference | array | tuple => simp [TypeForm.text] at h
        | _ => cases hgw
      | reference x m =>
        cases g with
        | reference y m' =>
          have hmark : (mutMarker m).toList ++ ((a.display x).toList ++ r) =
              (mutMarker m').toList ++ ((a.display y).toList ++ r') := by
            simpa [TypeForm.text] using h
          obtain ⟨rfl, rfl, hrest⟩ := hw.marked_inj ha (hfs x (List.mem_singleton.2 rfl))
            (hgs y (List.mem_singleton.2 rfl)) hpart hr hr' hmark
          exact ⟨rfl, hrest⟩
        | unit | pointer | array | tuple => simp [TypeForm.text] at h
        | _ => cases hgw
      | array x n =>
        cases g with
        | array y n' =>
          have hlist : (a.display x).toList ++ ';' :: ' ' :: (Nat.toDigits 10 n ++ ']' :: r) =
              (a.display y).toList ++ ';' :: ' ' :: (Nat.toDigits 10 n' ++ ']' :: r') := by
            simpa [TypeForm.text, toList_toString] using h
          obtain ⟨rfl, hnumber⟩ := hpart x (List.mem_singleton.2 rfl) y (List.mem_singleton.2 rfl) _ _
            (endsType_cons (by decide) _) (endsType_cons (by decide) _) hlist
          obtain ⟨hdigits, hrest⟩ := append_inj_of_all (fun c => isDigit_of_mem_toDigits)
            (fun c => isDigit_of_mem_toDigits) (by simp) (by simp)
            (List.cons_eq_cons.1 (List.cons_eq_cons.1 hnumber).2).2
          exact ⟨by rw [toDigits_inj hdigits], (List.cons_eq_cons.1 hrest).2⟩
        | unit | pointer | reference | tuple => simp [TypeForm.text] at h
        | _ => cases hgw
      | tuple xs =>
        cases g with
        | unit =>
          have hlist : (", ".intercalate (xs.map a.display)).toList ++ ')' :: r =
              (", ".intercalate (([] : List TypeId).map a.display)).toList ++ ')' :: r' := by
            simpa [TypeForm.text] using h
          obtain ⟨rfl, -⟩ := hw.listed_inj ha hfs hgs hpart hlist
          exact absurd hf hw.parts
        | tuple ys =>
          have hlist : (", ".intercalate (xs.map a.display)).toList ++ ')' :: r =
              (", ".intercalate (ys.map a.display)).toList ++ ')' :: r' := by
            simpa [TypeForm.text] using h
          obtain ⟨rfl, hrest⟩ := hw.listed_inj ha hfs hgs hpart hlist
          exact ⟨rfl, hrest⟩
        | pointer | reference | array => simp [TypeForm.text] at h
        | _ => cases hgw
      | _ => cases hfw

/-- **Types with one text are one type**, whatever separator or bracket follows each. -/
theorem Canonical.eq_of_text (ha : a.Canonical) (hw : a.Worded) (hs : a.Live s) (ht : a.Live t)
    (hr : EndsType r) (hr' : EndsType r')
    (h : (a.display s).toList ++ r = (a.display t).toList ++ r') : s = t ∧ r = r' := by
  obtain ⟨i⟩ := s
  induction i using Nat.strongRecOn generalizing t r r' with
  | ind i ih =>
    rw [ha.display_form, ha.display_form] at h
    obtain ⟨hform, hrest⟩ := hw.eq_of_text ha.toOrdered (mem_forms hs) (mem_forms ht)
      (fun x hx => ha.live_part hs hx) (fun y hy => ha.live_part ht hy)
      (fun x hx y hy u u' hu hu' heq => ih x.index (ha.lt_of_mem_parts hx) (ha.live_part ht hy) hu hu'
        (ha.live_part hs hx) heq) hr hr' h
    exact ⟨ha.eq_of_forms (hform ▸ hs.forms) ht.forms, hrest⟩

/-! ### One module -/

namespace Op

/-- Whether a call builds a pointer, a reference, an array or a tuple, or declares a type. -/
def builds : Op → Bool
  | pointer _ _ | reference _ _ | array _ _ | tuple _ | declareStruct _ _ | declareEnum _ _ => true
  | primitive _ | intern _ | defineStruct _ _ | defineEnum _ _ _ | resolve _ _ | resolveResult _ _
  | reset => false

/-- The name and the owner of the type that a call declares. -/
def declared? : Op → Option (String × UnitId)
  | declareStruct name owner => some (name, owner)
  | declareEnum name owner => some (name, owner)
  | _ => none

/-- The form of the type that a call declares. -/
def declaredForm? : Op → Option TypeForm
  | declareStruct name owner => some (.struct name owner)
  | declareEnum name owner => some (.enum name owner)
  | _ => none

theorem declared?_of_declaredForm? {op : Op} {f : TypeForm} {w : String}
    (h : op.declaredForm? = some f) (hw : f.word? = some w) : ∃ o, op.declared? = some (w, o) := by
  cases op with
  | declareStruct name owner | declareEnum name owner =>
    cases h
    cases hw
    exact ⟨owner, rfl⟩
  | _ => cases h

end Op

/-- Calls that build types and declare the structs and enums of one module: one owner, no name
for both a struct and an enum, and names that are identifiers and not texts of other types. -/
structure OneModule (owner : UnitId) (calls : List Op) : Prop where
  builds : ∀ op ∈ calls, op.builds = true
  owner : ∀ op ∈ calls, ∀ d ∈ op.declared?, d.2 = owner
  names : ∀ op ∈ calls, ∀ d ∈ op.declared?,
    isIdentifier d.1 = true ∧ d.1 ≠ "untyped" ∧ TypeId.primitive? d.1 = none
  kinds : ∀ name o o', .declareStruct name o ∈ calls → .declareEnum name o' ∉ calls

/-- The forms that calls of one module may put into an arena. -/
def Declarable (calls : List Op) (f : TypeForm) : Prop :=
  f ∈ TypeForm.primitives ∨ (f.word? = none ∧ f ≠ .tuple []) ∨
    ∃ op ∈ calls, op.declaredForm? = some f

theorem Op.declarable_run {op : Op} (hop : op.builds = true) {calls : List Op} (hmem : op ∈ calls)
    (h : ∀ f ∈ a.forms, Declarable calls f) : ∀ f ∈ (op.run a).forms, Declarable calls f := by
  have hintern {g : TypeForm} (hg : Declarable calls g) : ∀ f ∈ (a.intern g).2.forms,
      Declarable calls f := by
    intro f hf
    rcases mem_forms_intern hf with hf | rfl
    · exact h f hf
    · exact hg
  cases op with
  | pointer | reference | array =>
    exact hintern (.inr (.inl ⟨rfl, TypeForm.noConfusion⟩))
  | tuple ts =>
    cases ts with
    | nil => exact h
    | cons t ts => exact hintern (.inr (.inl ⟨rfl, by simp⟩))
  | declareStruct | declareEnum => exact hintern (.inr (.inr ⟨_, hmem, rfl⟩))
  | _ => cases hop

theorem declarable_runAll {calls ops : List Op} (hbuilds : ∀ op ∈ ops, op.builds = true)
    (hmem : ∀ op ∈ ops, op ∈ calls) {b : Arena} (h : ∀ f ∈ b.forms, Declarable calls f)
    (hrun : runAll ops b = some a) : ∀ f ∈ a.forms, Declarable calls f := by
  induction ops generalizing b with
  | nil =>
    cases hrun
    exact h
  | cons op ops ih =>
    obtain ⟨-, hrest⟩ := Option.ite_none_right_eq_some.1 hrun
    obtain ⟨hop, hops⟩ := List.forall_mem_cons.1 hbuilds
    obtain ⟨hopmem, hopsmem⟩ := List.forall_mem_cons.1 hmem
    exact ih hops hopsmem (op.declarable_run hop hopmem h) hrest

theorem word_of_mem_primitives : ∀ f ∈ TypeForm.primitives, ∀ w ∈ f.word?,
    (w ≠ "" ∧ ∀ c ∈ w.toList, isWordChar c = true) ∧
      (w = "untyped" ∨ (TypeId.primitive? w).isSome) := by
  simp only [← List.all_eq_true]
  decide

theorem eq_of_word_of_mem_primitives : ∀ f ∈ TypeForm.primitives, ∀ g ∈ TypeForm.primitives,
    f.word?.isSome → f.word? = g.word? → f = g := by
  decide

variable {owner : UnitId} {calls : List Op}

theorem OneModule.primitive_ne_declared (hc : OneModule owner calls) {f g : TypeForm} {op : Op}
    {w : String} (hf : f ∈ TypeForm.primitives) (hfw : f.word? = some w) (hop : op ∈ calls)
    (hg : op.declaredForm? = some g) (hgw : g.word? = some w) : False := by
  obtain ⟨o, hd⟩ := Op.declared?_of_declaredForm? hg hgw
  obtain ⟨-, huntyped, hprimitive⟩ := hc.names op hop (w, o) hd
  rcases (word_of_mem_primitives f hf w hfw).2 with rfl | hsome
  · exact huntyped rfl
  · rw [hprimitive] at hsome
    cases hsome

theorem OneModule.eq_of_declared (hc : OneModule owner calls) {f g : TypeForm} {op op' : Op}
    {w : String} (hop : op ∈ calls) (hop' : op' ∈ calls) (hf : op.declaredForm? = some f)
    (hg : op'.declaredForm? = some g) (hfw : f.word? = some w) (hgw : g.word? = some w) :
    f = g := by
  cases op with
  | declareStruct name o =>
    cases hf
    cases hfw
    have ho : o = owner := hc.owner _ hop (w, o) rfl
    cases op' with
    | declareStruct name' o' =>
      cases hg
      cases hgw
      have ho' : o' = owner := hc.owner _ hop' (w, o') rfl
      rw [ho, ho']
    | declareEnum name' o' =>
      cases hg
      cases hgw
      exact absurd hop' (hc.kinds w o o' hop)
    | _ => cases hg
  | declareEnum name o =>
    cases hf
    cases hfw
    have ho : o = owner := hc.owner _ hop (w, o) rfl
    cases op' with
    | declareStruct name' o' =>
      cases hg
      cases hgw
      exact absurd hop (hc.kinds w o' o hop')
    | declareEnum name' o' =>
      cases hg
      cases hgw
      have ho' : o' = owner := hc.owner _ hop' (w, o') rfl
      rw [ho, ho']
    | _ => cases hg
  | _ => cases hf

theorem OneModule.worded (hc : OneModule owner calls) (h : ∀ f ∈ a.forms, Declarable calls f) :
    a.Worded where
  word f hf w hw := by
    rcases h f hf with hprim | ⟨hnone, -⟩ | ⟨op, hop, hdecl⟩
    · exact (word_of_mem_primitives f hprim w hw).1
    · cases hnone.symm.trans hw
    · obtain ⟨o, hd⟩ := Op.declared?_of_declaredForm? hdecl hw
      have hident : isIdentifier w = true := (hc.names op hop (w, o) hd).1
      refine ⟨?_, isWordChar_of_isIdentifier hident⟩
      rintro rfl
      exact absurd hident (by decide)
  unique f hf g hg w hfw hgw := by
    rcases h f hf with hprim | ⟨hnone, -⟩ | ⟨op, hop, hdecl⟩
    · rcases h g hg with hprim' | ⟨hnone', -⟩ | ⟨op', hop', hdecl'⟩
      · exact eq_of_word_of_mem_primitives f hprim g hprim' (by rw [hfw]; rfl) (hfw.trans hgw.symm)
      · cases hnone'.symm.trans hgw
      · exact (hc.primitive_ne_declared hprim hfw hop' hdecl' hgw).elim
    · cases hnone.symm.trans hfw
    · rcases h g hg with hprim' | ⟨hnone', -⟩ | ⟨op', hop', hdecl'⟩
      · exact (hc.primitive_ne_declared hprim' hgw hop hdecl hfw).elim
      · cases hnone'.symm.trans hgw
      · exact hc.eq_of_declared hop hop' hdecl hdecl' hfw hgw
  parts hmem := by
    rcases h _ hmem with hprim | ⟨-, hne⟩ | ⟨op, -, hdecl⟩
    · revert hprim
      decide
    · exact hne rfl
    · cases op with
      | _ => cases hdecl

/-- **Type texts are unambiguous inside a module.**  In an arena that calls of one module build
over live handles, live types have one text just if they are one type. -/
theorem display_unambiguous (hc : OneModule owner calls) (h : runAll calls empty = some a)
    (hs : a.Live s) (ht : a.Live t) : a.display s = a.display t ↔ s = t := by
  constructor
  · intro htext
    have hforms := declarable_runAll hc.builds (fun op hop => hop) (fun f hf => .inl hf) h
    have hends : EndsType [] := fun c hc => nomatch hc
    have ha := (Reached.empty.runAll h).canonical
    exact (ha.eq_of_text (hc.worded hforms) hs ht hends hends (by rw [htext])).1
  · rintro rfl
    rfl

/-- Calls that build `(mut)`, `((mut))`, `&mut`, `&mut mut` and `[*mut mut; 10]` over a struct with
the name `mut`, and one of them again. -/
def nearMarkers : List Op :=
  [.declareStruct "mut" ⟨3⟩, .declareEnum "Shape" ⟨3⟩, .tuple [⟨19⟩], .tuple [⟨21⟩],
    .reference ⟨19⟩ false, .reference ⟨19⟩ true, .pointer ⟨19⟩ true, .array ⟨25⟩ 10, .tuple [⟨20⟩, .i32],
    .reference ⟨19⟩ true]

def nearMarkersArena : Arena where
  forms := TypeForm.primitives ++
    [.struct "mut" ⟨3⟩, .enum "Shape" ⟨3⟩, .tuple [⟨19⟩], .tuple [⟨21⟩], .reference ⟨19⟩ false,
      .reference ⟨19⟩ true, .pointer ⟨19⟩ true, .array ⟨25⟩ 10, .tuple [⟨20⟩, .i32]]
  layouts := []

theorem oneModule_nearMarkers : OneModule ⟨3⟩ nearMarkers where
  builds := by decide
  owner := by decide
  names := by decide
  kinds := by simp +contextual [nearMarkers]

theorem display_unambiguous_nearMarkers :
    OneModule ⟨3⟩ nearMarkers ∧ runAll nearMarkers empty = some nearMarkersArena ∧
    nearMarkersArena.display ⟨23⟩ = "&mut" ∧ nearMarkersArena.display ⟨24⟩ = "&mut mut" ∧
    (nearMarkersArena.display ⟨21⟩ = nearMarkersArena.display ⟨22⟩ ↔ (⟨21⟩ : TypeId) = ⟨22⟩) ∧
    ∀ i < nearMarkersArena.size, ∀ j < nearMarkersArena.size,
      (nearMarkersArena.display ⟨i⟩ = nearMarkersArena.display ⟨j⟩ ↔ (⟨i⟩ : TypeId) = ⟨j⟩) := by
  have hrun : runAll nearMarkers empty = some nearMarkersArena := by decide
  exact ⟨oneModule_nearMarkers, hrun, by decide, by decide,
    display_unambiguous oneModule_nearMarkers hrun (by decide) (by decide),
    fun i hi j hj => display_unambiguous oneModule_nearMarkers hrun hi hj⟩

end Arena

end RustFlow
