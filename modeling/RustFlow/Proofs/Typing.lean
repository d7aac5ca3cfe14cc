/-
# The typing rules of terms

A term carries a type, and `Typing` says which type a form may have over the types of its
parts.  The rules read the arena by its forms and layouts alone: a borrowed value has the
type at which the reference to the type of the value is interned, an element of an indexed
value has the type in the array that is left when pointers and references are stripped, and
so on.  Where no rule gives a type, it is unknown.

A term is *well typed* if every term that stands in it has a live type by its rule: at any
depth, and also where a pattern has a literal or the end of a range.  Terms are built while
the arena grows, so what is well typed has to stay so.  All that a rule asks of the arena is
asked of live types, and these keep their forms and texts (`Typing.mono`,
`Term.WellTyped.mono`).
-/

import RustFlow.Proofs.Permanence

namespace RustFlow

/-! ### Pointers and references -/

namespace Arena

variable {a b : Arena} {f : TypeForm} {s t : TypeId}

/-- A pointer or a reference to a type. -/
def Refers (a : Arena) (s t : TypeId) : Prop :=
  ∃ mutable, a.form s = .pointer t mutable ∨ a.form s = .reference t mutable

/-- A type and what is left of it without pointers and references. -/
inductive Stripped (a : Arena) : TypeId → TypeId → Prop where
  | done {t : TypeId} : (∀ u, ¬a.Refers t u) → Stripped a t t
  | step {s t u : TypeId} : a.Refers s t → Stripped a t u → Stripped a s u

theorem Refers.mem_parts (h : a.Refers s t) : t ∈ (a.form s).parts := by
  obtain ⟨mutable, hform | hform⟩ := h <;> exact hform ▸ List.mem_singleton.2 rfl

theorem Live.refers_iff (hs : a.Live s) (hpre : a.forms <+: b.forms) :
    b.Refers s t ↔ a.Refers s t := by
  rw [Refers, Refers, hs.form_eq hpre]

theorem refers_pointee (a : Arena) (s : TypeId) :
    a.Refers s (a.pointee s) ∨ (∀ t, ¬a.Refers s t) ∧ a.pointee s = .unknown := by
  unfold Refers pointee
  cases a.form s with
  | pointer t mutable => exact .inl ⟨mutable, .inl rfl⟩
  | reference t mutable => exact .inl ⟨mutable, .inr rfl⟩
  | _ => exact .inr ⟨by simp, rfl⟩

theorem Ordered.live_pointee (ha : a.Ordered) (hs : a.Live s) : a.Live (a.pointee s) := by
  rcases a.refers_pointee s with href | ⟨-, hunknown⟩
  · exact ha.live_part hs href.mem_parts
  · exact hunknown ▸ ha.live_unknown

theorem Ordered.live_stripped (ha : a.Ordered) (h : a.Stripped s t) (hs : a.Live s) : a.Live t := by
  induction h with
  | done => exact hs
  | step href _ ih => exact ih (ha.live_part hs href.mem_parts)

theorem Stripped.mono (ha : a.Ordered) (hpre : a.forms <+: b.forms) (h : a.Stripped s t)
    (hs : a.Live s) : b.Stripped s t := by
  induction h with
  | done hnone => exact .done fun u href => hnone u ((hs.refers_iff hpre).1 href)
  | step href _ ih =>
    exact .step ((hs.refers_iff hpre).2 href) (ih (ha.live_part hs href.mem_parts))

/-- **Peeling a type strips it**: the walk ends before its bound, since each step goes to a
part. -/
theorem Ordered.stripped_peel (ha : a.Ordered) (t : TypeId) : a.Stripped t (a.peel t) := by
  refine ha.walk (P := fun n t => a.Stripped t (a.peelWithin n t)) (fun n t ih => ?_) t
  rw [peelWithin]
  cases hform : a.form t with
  | pointer s mutable =>
    exact .step ⟨mutable, .inl hform⟩ (ih s (hform ▸ List.mem_singleton.2 rfl))
  | reference s mutable =>
    exact .step ⟨mutable, .inr hform⟩ (ih s (hform ▸ List.mem_singleton.2 rfl))
  | _ =>
    refine .done fun u href => ?_
    obtain ⟨mutable, href | href⟩ := href <;> cases hform.symm.trans href

theorem Ordered.live_peel (ha : a.Ordered) (ht : a.Live t) : a.Live (a.peel t) :=
  ha.live_stripped (ha.stripped_peel t) ht

/-! ### What a larger arena says -/

theorem lookup_mono (hpre : a.forms <+: b.forms) (h : a.lookup f = some t) :
    b.lookup f = some t := by
  obtain ⟨new, hnew⟩ := hpre
  obtain ⟨i, hi, rfl⟩ := Option.map_eq_some_iff.1 h
  have hboth : b.forms.idxOf? f = some i := by
    rw [← hnew, List.idxOf?, List.findIdx?_append]
    rw [List.idxOf?] at hi
    rw [hi]
    rfl
  rw [lookup, hboth]
  rfl

theorem lookup_intern (a : Arena) (f : TypeForm) : (a.intern f).2.lookup f = some (a.intern f).1 := by
  cases h : a.lookup f with
  | some t =>
    rw [intern_of_lookup h]
    exact h
  | none =>
    have hnew := lookup_eq_none.1 h
    rw [intern, h]
    show (List.idxOf? f (a.forms ++ [f])).map TypeId.mk = some ⟨a.size⟩
    have hidx : List.idxOf? f (a.forms ++ [f]) = some a.size := by
      rw [List.idxOf?_eq_some_iff]
      refine ⟨by simp [size], by simp [size], fun j hj heq => hnew ?_⟩
      rw [List.getElem_append_left hj] at heq
      exact heq ▸ List.getElem_mem _
    rw [hidx]
    rfl

/-- An ordered arena and what it becomes by interning. -/
structure Later (a b : Arena) : Prop where
  ordered : a.Ordered
  interns : Interns a b

theorem Later.refl (ha : a.Ordered) : Later a a := ⟨ha, .refl⟩

theorem Later.trans {c : Arena} (hab : Later a b) (hbc : Later b c) : Later a c :=
  ⟨hab.ordered, hab.interns.trans hbc.interns⟩

theorem Later.ordered_right (h : Later a b) : b.Ordered := h.interns.ordered h.ordered

theorem Later.forms (h : Later a b) : a.forms <+: b.forms := h.interns.forms

theorem Later.layout?_eq (h : Later a b) (t : TypeId) : b.layout? t = a.layout? t := by
  rw [layout?, layout?, h.interns.layouts]

theorem Later.fieldType_eq (h : Later a b) (t : TypeId) (name : String) :
    b.fieldType t name = a.fieldType t name := by
  rw [fieldType, fieldType, fields, fields, h.layout?_eq]

theorem Later.variant?_eq (h : Later a b) (t : TypeId) (name : String) :
    b.variant? t name = a.variant? t name := by
  rw [variant?, variant?, variants, variants, h.layout?_eq]

end Arena

/-! ### The rules -/

/-- A form of a type, by the rule of its constructor. -/
inductive Typing (scope : Scope) (a : Arena) : TermForm → TypeId → Prop where
  /-- A suffix of a literal names a fixed type, or no type that is known. -/
  | int (n : Nat) {t : TypeId} :
      t = .unknown ∨ t.isPrimitive = true → Typing scope a (.literal (.int n)) t
  | float (x : Binary64) {t : TypeId} :
      t = .f32 ∨ t = .f64 → Typing scope a (.literal (.float x)) t
  | bool (v : Bool) : Typing scope a (.literal (.bool v)) .bool
  | char (v : Char) : Typing scope a (.literal (.char v)) .char
  | str (v : String) {t : TypeId} :
      a.lookup (.reference .str false) = some t → Typing scope a (.literal (.str v)) t
  | unit : Typing scope a (.literal .unit) .unit
  /-- What a variable is bound to does not show in its form. -/
  | var (v : Variable) (t : TypeId) : Typing scope a (.var v) t
  | path (path : String) : Typing scope a (.path path) .unknown
  | macroCall (path tokens : String) : Typing scope a (.macroCall path tokens) .unknown
  | exhausted : Typing scope a .exhausted .unknown
  | truth {op : BinaryOp} (l r : Term) :
      op.isBoolean = true → Typing scope a (.binary op l r) .bool
  | common {op : BinaryOp} {l r : Term} :
      op.isBoolean = false → l.type = r.type → Typing scope a (.binary op l r) l.type
  | mixed {op : BinaryOp} {l r : Term} :
      op.isBoolean = false → l.type ≠ r.type → Typing scope a (.binary op l r) .unknown
  | neg (e : Term) : Typing scope a (.unary .neg e) e.type
  | not (e : Term) : Typing scope a (.unary .not e) e.type
  | deref {e : Term} {t : TypeId} :
      a.Refers e.type t → Typing scope a (.unary .deref e) t
  | derefOther {e : Term} :
      (∀ t, ¬a.Refers e.type t) → Typing scope a (.unary .deref e) .unknown
  | borrow {mutable : Bool} {e : Term} {t : TypeId} :
      a.lookup (.reference e.type mutable) = some t → Typing scope a (.borrow mutable e) t
  /-- A cast has the type it names. -/
  | cast (e : Term) {target : String} {t : TypeId} :
      t = .unknown ∨ target = a.display t → Typing scope a (.cast e target) t
  | range (start stop : Option Term) (inclusive : Bool) :
      Typing scope a (.range start stop inclusive) .unknown
  /-- A `let` with a type has the type it names. -/
  | ascribed (p : Pattern) {text : String} (init : Option Term) {t : TypeId} :
      t = .unknown ∨ text = a.display t → Typing scope a (.declare p (some text) init) t
  | inferred (p : Pattern) (init : Term) : Typing scope a (.declare p none (some init)) init.type
  | bare (p : Pattern) : Typing scope a (.declare p none none) .unknown
  | assign (target value : Term) : Typing scope a (.assign target value) .unit
  | test (p : Pattern) (e : Term) : Typing scope a (.test p e) .bool
  | pattern (p : Pattern) : Typing scope a (.pattern p) p.staticType
  | element {base : Term} (idx : Term) {u e : TypeId} {length : Nat} :
      a.Stripped base.type u → a.form u = .array e length → Typing scope a (.index base idx) e
  | noElement {base : Term} (idx : Term) {u : TypeId} :
      a.Stripped base.type u → (∀ e length, a.form u ≠ .array e length) →
      Typing scope a (.index base idx) .unknown
  | component {base : Term} (i : Nat) {u : TypeId} {ts : List TypeId} :
      a.Stripped base.type u → a.form u = .tuple ts →
      Typing scope a (.tupleField base i) (ts[i]?.getD .unknown)
  /-- The fields of a tuple struct are named by their positions. -/
  | position {base : Term} (i : Nat) {u : TypeId} :
      a.Stripped base.type u → (∀ ts, a.form u ≠ .tuple ts) →
      Typing scope a (.tupleField base i) (a.fieldType u (toString i))
  | field {base : Term} (name : String) {u : TypeId} :
      a.Stripped base.type u → Typing scope a (.field base name) (a.fieldType u name)
  | call (target : String) (qualifier : Option String) (method : Bool) (args : List Term) :
      Typing scope a (.call target qualifier method args) .unknown
  | structLit {name : String} (fields : List Term) {t : TypeId} :
      a.lookup (.struct name scope.owner) = some t → Typing scope a (.structLit name fields) t
  | selfStruct {name declared : String} {owner : UnitId} (fields : List Term) {t : TypeId} :
      scope.selfType = some t → a.form t = .struct declared owner →
      name = declared ∨ name = "Self" → Typing scope a (.structLit name fields) t
  /-- Unless names have to be resolved, a literal may be of a struct that is not known. -/
  | otherStruct (name : String) (fields : List Term) :
      scope.strict = false → Typing scope a (.structLit name fields) .unknown
  | enumLit {name variant : String} (payload : Payload) (values : List Term) {t : TypeId} :
      a.lookup (.enum name scope.owner) = some t → (a.variant? t variant).isSome = true →
      Typing scope a (.enumLit name variant payload values) t
  | selfEnum {name variant : String} {owner : UnitId} (payload : Payload) (values : List Term)
      {t : TypeId} :
      scope.selfType = some t → a.form t = .enum name owner →
      (a.variant? t variant).isSome = true → Typing scope a (.enumLit name variant payload values) t
  | tuple {elements : List Term} {t : TypeId} :
      elements ≠ [] → a.lookup (.tuple (elements.map Term.type)) = some t →
      Typing scope a (.tuple elements) t
  | array {elements : List Term} {e t : TypeId} :
      elements ≠ [] → (∀ x ∈ elements, x.type = e) →
      a.lookup (.array e elements.length) = some t → Typing scope a (.array elements) t
  | mixedArray {elements : List Term} {t : TypeId} :
      elements = [] ∨ (∃ x ∈ elements, ∃ y ∈ elements, x.type ≠ y.type) →
      a.lookup (.array .unknown elements.length) = some t → Typing scope a (.array elements) t
  | arrayRepeat {element : Term} {length : Nat} {t : TypeId} :
      a.lookup (.array element.type length) = some t →
      Typing scope a (.arrayRepeat element length) t

/-! ### Terms in terms -/

mutual

/-- The terms of a pattern: its literals and the ends of its ranges. -/
def Pattern.terms : Pattern → List Term
  | .binding _ | .path _ | .rest | .wildcard => []
  | .reference _ p => p.terms
  | .struct _ _ fields _ => termsOfFields fields
  | .tupleStruct _ ps | .tuple ps | .alternatives ps => termsOfPatterns ps
  | .literal v => [v]
  | .range start stop _ => start.toList ++ stop.toList

def termsOfPatterns : List Pattern → List Term
  | [] => []
  | p :: ps => p.terms ++ termsOfPatterns ps

def termsOfFields : List FieldPattern → List Term
  | [] => []
  | .mk _ p :: fields => p.terms ++ termsOfFields fields

end

def TermForm.parts : TermForm → List Term
  | .literal _ | .var _ | .path _ | .macroCall _ _ | .exhausted => []
  | .binary _ l r => [l, r]
  | .unary _ e | .borrow _ e | .cast e _ | .tupleField e _ | .field e _ | .arrayRepeat e _ => [e]
  | .range start stop _ => start.toList ++ stop.toList
  | .declare p _ init => p.terms ++ init.toList
  | .assign target value => [target, value]
  | .test p e => p.terms ++ [e]
  | .pattern p => p.terms
  | .index base idx => [base, idx]
  | .call _ _ _ vs | .structLit _ vs | .enumLit _ _ _ vs | .tuple vs | .array vs => vs

/-- A term that stands in another at any depth. -/
inductive Term.Within : Term → Term → Prop where
  | self (t : Term) : Within t t
  | part {t u v : Term} : v ∈ t.form.parts → Within u v → Within u t

theorem Term.Within.trans {t u v : Term} (hvu : v.Within u) (hut : u.Within t) : v.Within t := by
  induction hut with
  | self => exact hvu
  | part hmem _ ih => exact .part hmem (ih hvu)

/-- Every term in a term has a live type by its rule. -/
def Term.WellTyped (scope : Scope) (a : Arena) (t : Term) : Prop :=
  ∀ u : Term, u.Within t → a.Live u.type ∧ Typing scope a u.form u.type

def TermsTyped (scope : Scope) (a : Arena) (ts : List Term) : Prop := ∀ t ∈ ts, t.WellTyped scope a

/-- A pattern of a live type whose terms are well typed. -/
structure Pattern.WellTyped (scope : Scope) (a : Arena) (p : Pattern) : Prop where
  live : a.Live p.staticType
  terms : TermsTyped scope a p.terms

section Stability

open Arena

variable {scope : Scope} {a b : Arena} {f : TermForm} {t : TypeId} {pos : Position}

theorem Term.WellTyped.live {t : Term} (h : t.WellTyped scope a) : a.Live t.type := (h t (.self t)).1

theorem Term.WellTyped.mk (ht : a.Live t) (hrule : Typing scope a f t)
    (hparts : TermsTyped scope a f.parts) : (Term.mk f t pos).WellTyped scope a := by
  intro u hu
  cases hu with
  | self => exact ⟨ht, hrule⟩
  | part hmem hu => exact hparts _ hmem u hu

theorem TermsTyped.nil : TermsTyped scope a [] := fun _ ht => by cases ht

theorem TermsTyped.cons {t : Term} {ts : List Term} (ht : t.WellTyped scope a)
    (hts : TermsTyped scope a ts) : TermsTyped scope a (t :: ts) := List.forall_mem_cons.2 ⟨ht, hts⟩

theorem TermsTyped.single {t : Term} (ht : t.WellTyped scope a) : TermsTyped scope a [t] :=
  .cons ht .nil

theorem TermsTyped.pair {t u : Term} (ht : t.WellTyped scope a) (hu : u.WellTyped scope a) :
    TermsTyped scope a [t, u] := .cons ht (.single hu)

theorem TermsTyped.append {ts us : List Term} (hts : TermsTyped scope a ts)
    (hus : TermsTyped scope a us) : TermsTyped scope a (ts ++ us) :=
  List.forall_mem_append.2 ⟨hts, hus⟩

/-- **A rule that gives a type goes on to give it** while the arena grows. -/
theorem Typing.mono (h : Typing scope a f t) (hab : Later a b) (ht : a.Live t)
    (hparts : ∀ u ∈ f.parts, a.Live u.type) : Typing scope b f t := by
  have ha := hab.ordered
  have hpre := hab.forms
  have hdisplay (text : String) (h : t = .unknown ∨ text = a.display t) :
      t = .unknown ∨ text = b.display t := by rwa [ha.display_eq hpre ht]
  cases h with
  | int n h => exact .int n h
  | float x h => exact .float x h
  | bool v => exact .bool v
  | char v => exact .char v
  | str v h => exact .str v (lookup_mono hpre h)
  | unit => exact .unit
  | var v => exact .var v t
  | path p => exact .path p
  | macroCall p tokens => exact .macroCall p tokens
  | exhausted => exact .exhausted
  | truth l r h => exact .truth l r h
  | common hop h => exact .common hop h
  | mixed hop h => exact .mixed hop h
  | neg e => exact .neg e
  | not e => exact .not e
  | @deref e t h =>
    have he := hparts e (List.mem_singleton.2 rfl)
    exact .deref ((he.refers_iff hpre).2 h)
  | @derefOther e h =>
    have he := hparts e (List.mem_singleton.2 rfl)
    exact .derefOther fun u href => h u ((he.refers_iff hpre).1 href)
  | borrow h => exact .borrow (lookup_mono hpre h)
  | cast e h => exact .cast e (hdisplay _ h)
  | range start stop inclusive => exact .range start stop inclusive
  | ascribed p init h => exact .ascribed p init (hdisplay _ h)
  | inferred p init => exact .inferred p init
  | bare p => exact .bare p
  | assign target value => exact .assign target value
  | test p e => exact .test p e
  | pattern p => exact .pattern p
  | @element base idx u e length hu h =>
    have hbase := hparts base List.mem_cons_self
    have hform := (ha.live_stripped hu hbase).form_eq hpre
    exact .element idx (hu.mono ha hpre hbase) (hform.trans h)
  | @noElement base idx u hu h =>
    have hbase := hparts base List.mem_cons_self
    have hform := (ha.live_stripped hu hbase).form_eq hpre
    exact .noElement idx (hu.mono ha hpre hbase) fun e length => hform ▸ h e length
  | @component base i u ts hu h =>
    have hbase := hparts base (List.mem_singleton.2 rfl)
    have hform := (ha.live_stripped hu hbase).form_eq hpre
    exact .component i (hu.mono ha hpre hbase) (hform.trans h)
  | @position base i u hu h =>
    have hbase := hparts base (List.mem_singleton.2 rfl)
    have hform := (ha.live_stripped hu hbase).form_eq hpre
    rw [← hab.fieldType_eq]
    exact .position i (hu.mono ha hpre hbase) fun ts => hform ▸ h ts
  | @field base name u hu =>
    have hbase := hparts base (List.mem_singleton.2 rfl)
    rw [← hab.fieldType_eq]
    exact .field name (hu.mono ha hpre hbase)
  | call target qualifier method args => exact .call target qualifier method args
  | structLit fields h => exact .structLit fields (lookup_mono hpre h)
  | selfStruct fields hself h hname =>
    exact .selfStruct fields hself ((ht.form_eq hpre).trans h) hname
  | otherStruct name fields h => exact .otherStruct name fields h
  | enumLit payload values h hv =>
    exact .enumLit payload values (lookup_mono hpre h) (hab.variant?_eq t _ ▸ hv)
  | selfEnum payload values hself h hv =>
    exact .selfEnum payload values hself ((ht.form_eq hpre).trans h) (hab.variant?_eq t _ ▸ hv)
  | tuple hne h => exact .tuple hne (lookup_mono hpre h)
  | array hne hall h => exact .array hne hall (lookup_mono hpre h)
  | mixedArray hmixed h => exact .mixedArray hmixed (lookup_mono hpre h)
  | arrayRepeat h => exact .arrayRepeat (lookup_mono hpre h)

/-- **A well-typed term stays well typed.** -/
theorem Term.WellTyped.mono {t : Term} (h : t.WellTyped scope a) (hab : Later a b) :
    t.WellTyped scope b := by
  intro u hu
  obtain ⟨hlive, hrule⟩ := h u hu
  refine ⟨hlive.mono hab.forms, hrule.mono hab hlive fun v hv => ?_⟩
  exact (h v (.trans (.part hv (.self v)) hu)).1

theorem TermsTyped.mono {ts : List Term} (h : TermsTyped scope a ts) (hab : Later a b) :
    TermsTyped scope b ts := fun t ht => (h t ht).mono hab

theorem Pattern.WellTyped.mono {p : Pattern} (h : p.WellTyped scope a) (hab : Later a b) :
    p.WellTyped scope b := ⟨h.live.mono hab.forms, h.terms.mono hab⟩

end Stability

end RustFlow
