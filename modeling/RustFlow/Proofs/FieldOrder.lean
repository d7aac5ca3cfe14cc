/-
# Field values are packed by declaration

A literal supplies its values under names, in any order.  Packing goes through the declared
names and takes out, for each, the first value that is left under it; the hole is filled with
the last value, so what is left is in a new order at every step.  The order does not matter:
one step takes one pair of a name off what is left, as a multiset (`packFields_cons_of_mem`),
or stops since the name is not there.

So there are three outcomes (`packFields_cases`).  Every declared name is paired with a value,
and the pairs are those that were supplied; or some declared name is the first that finds no
value; or all of them find one and something is left over.  When no name is declared twice
there is one way to pair the names with the values, whatever the order they are written in.
-/

import RustFlow.Lowering.Expr
import Mathlib.Data.List.Perm.Subperm

namespace RustFlow

variable {α : Type} {owner name : String} {names given given' : List String}
  {ps qs : List (String × α)} {values : List α}

/-- The first of the declared names, from the left, that is left without a value: those before
it have one each, and with it there are too few. -/
def FirstMissing (names given : List String) (name : String) : Prop :=
  ∃ before after, names = before ++ name :: after ∧ before.Subperm given ∧
    ¬ (before ++ [name]).Subperm given

/-! ### One declared name -/

theorem perm_swapRemove? {i : Nat} {x : α} {xs rest : List α}
    (h : swapRemove? xs i = some (x, rest)) : xs.Perm (x :: rest) := by
  obtain rfl | ⟨init, last, rfl⟩ := List.eq_nil_or_concat' xs
  · cases h
  obtain ⟨y, hy, h⟩ := Option.bind_eq_some_iff.1 h
  rw [List.getLast?_concat] at h
  cases h
  obtain ⟨hi, rfl⟩ := List.getElem?_eq_some_iff.1 hy
  simp only [List.length_append, List.length_singleton, List.dropLast_concat,
    Nat.add_right_cancel_iff] at hi ⊢
  split
  · subst i
    simp
  · have hlt : i < init.length := by omega
    have hsplit : init = init.take i ++ init[i] :: init.drop (i + 1) := by simp
    rw [List.getElem_append_left hlt, List.set_eq_take_append_cons_drop, if_pos hlt]
    calc (init ++ [last]).Perm (last :: init) := List.perm_append_singleton last init
      _ = last :: (init.take i ++ init[i] :: init.drop (i + 1)) := by rw [← hsplit]
      _ |>.Perm (last :: init[i] :: (init.take i ++ init.drop (i + 1))) := List.perm_middle.cons _
      _ |>.Perm (init[i] :: last :: (init.take i ++ init.drop (i + 1))) := .swap ..
      _ |>.Perm (init[i] :: (init.take i ++ last :: init.drop (i + 1))) := List.perm_middle.symm.cons _

theorem swapRemove?_isSome {xs : List α} {i : Nat} (hi : i < xs.length) :
    ∃ rest, swapRemove? xs i = some (xs[i], rest) := by
  have hne : xs ≠ [] := List.ne_nil_of_length_pos (Nat.zero_lt_of_lt hi)
  rw [swapRemove?, List.getElem?_eq_getElem hi, List.getLast?_eq_some_getLast hne]
  exact ⟨_, rfl⟩

/-- **The step.**  A name that has a value takes one pair off what is left. -/
theorem packFields_cons_of_mem (owner : String) (names : List String)
    (h : name ∈ ps.map Prod.fst) :
    ∃ value rest, ps.Perm ((name, value) :: rest) ∧
      packFields owner (name :: names) ps = (packFields owner names rest).map (value :: ·) := by
  obtain ⟨p, hp, rfl⟩ := List.mem_map.1 h
  obtain ⟨i, hi⟩ : ∃ i, ps.findIdx? (fun q => q.1 == p.1) = some i := by
    refine Option.isSome_iff_exists.1 ?_
    rw [List.findIdx?_isSome, List.any_eq_true]
    exact ⟨p, hp, beq_self_eq_true _⟩
  obtain ⟨hlt, hname, -⟩ := List.findIdx?_eq_some_iff_getElem.1 hi
  obtain ⟨rest, htaken⟩ := swapRemove?_isSome hlt
  have hpair : ps[i] = (p.1, ps[i].2) := Prod.ext (eq_of_beq hname) rfl
  refine ⟨ps[i].2, rest, hpair ▸ perm_swapRemove? htaken, ?_⟩
  rw [packFields, takeField?, hi, Option.bind_eq_bind, Option.bind_some, htaken]
  rfl

theorem packFields_cons_of_not_mem (owner : String) (names : List String)
    (h : name ∉ ps.map Prod.fst) :
    packFields owner (name :: names) ps = .error (.missingField owner name) := by
  have hnone : ps.findIdx? (fun p => p.1 == name) = none := by
    refine List.findIdx?_eq_none_iff.2 fun p hp => ?_
    exact beq_false_of_ne fun heq => h (List.mem_map.2 ⟨p, hp, heq⟩)
  rw [packFields, takeField?, hnone]
  rfl

/-! ### All declared names -/

theorem FirstMissing.cons (h : FirstMissing names given name) (first : String) :
    FirstMissing (first :: names) (first :: given) name := by
  obtain ⟨before, after, rfl, henough, hfew⟩ := h
  exact ⟨first :: before, after, rfl, (List.subperm_cons first).2 henough,
    fun hle => hfew ((List.subperm_cons first).1 hle)⟩

theorem FirstMissing.perm (h : FirstMissing names given name) (hperm : given.Perm given') :
    FirstMissing names given' name := by
  obtain ⟨before, after, hnames, henough, hfew⟩ := h
  exact ⟨before, after, hnames, hperm.subperm_left.1 henough,
    fun hle => hfew (hperm.subperm_left.2 hle)⟩

/-- A declared name is left without a value just if the declared ones are too many. -/
theorem FirstMissing.not_subperm (h : FirstMissing names given name) : ¬ names.Subperm given := by
  obtain ⟨before, after, rfl, -, hfew⟩ := h
  intro hle
  have hinit : (before ++ [name]).Sublist (before ++ name :: after) := by simp
  exact hfew (hinit.subperm.trans hle)

/-- **The run.**  Packing pairs the declared names with the supplied values, or stops at the
first name without a value, or ends with values left over. -/
theorem packFields_cases (owner : String) (names : List String) (ps : List (String × α)) :
    (∃ values, packFields owner names ps = .ok values ∧ values.length = names.length ∧
      (names.zip values).Perm ps) ∨
    (∃ name, packFields owner names ps = .error (.missingField owner name) ∧
      FirstMissing names (ps.map Prod.fst) name) ∨
    (∃ extra, packFields owner names ps = .error (.unknownField owner extra) ∧
      names.Subperm (ps.map Prod.fst) ∧ names.count extra < (ps.map Prod.fst).count extra) := by
  induction names generalizing ps with
  | nil =>
    cases ps with
    | nil => exact .inl ⟨[], rfl, rfl, .refl _⟩
    | cons p ps => exact .inr (.inr ⟨p.1, rfl, List.nil_subperm, by simp⟩)
  | cons name names ih =>
    by_cases hmem : name ∈ ps.map Prod.fst
    · obtain ⟨value, rest, hperm, hstep⟩ := packFields_cons_of_mem owner names hmem
      have hgiven : (ps.map Prod.fst).Perm (name :: rest.map Prod.fst) := hperm.map Prod.fst
      rw [hstep]
      rcases ih rest with ⟨values, hrun, hlength, hpairs⟩ | ⟨missing, hrun, hfirst⟩ |
        ⟨extra, hrun, henough, hcount⟩
      · refine .inl ⟨value :: values, by rw [hrun]; rfl, congrArg (· + 1) hlength, ?_⟩
        exact (hpairs.cons (name, value)).trans hperm.symm
      · exact .inr (.inl ⟨missing, by rw [hrun]; rfl, (hfirst.cons name).perm hgiven.symm⟩)
      · refine .inr (.inr ⟨extra, by rw [hrun]; rfl, ?_, ?_⟩)
        · exact hgiven.subperm_left.2 ((List.subperm_cons name).2 henough)
        · rw [hgiven.count_eq, List.count_cons, List.count_cons]
          exact Nat.add_lt_add_right hcount _
    · refine .inr (.inl ⟨name, packFields_cons_of_not_mem owner names hmem, [], names, rfl,
        List.nil_subperm, fun hle => hmem ?_⟩)
      exact List.singleton_subperm_iff.1 hle

/-! ### Consequences -/

theorem map_fst_zip_values (h : values.length = names.length) :
    (names.zip values).map Prod.fst = names := List.map_fst_zip (Nat.le_of_eq h.symm)

theorem packFields_ok (h : packFields owner names ps = .ok values) :
    values.length = names.length ∧ (names.zip values).Perm ps := by
  rcases packFields_cases owner names ps with ⟨values', hrun, hlength, hpairs⟩ | ⟨_, hrun, -⟩ |
    ⟨_, hrun, -⟩
  · obtain rfl := Except.ok.inj (h.symm.trans hrun)
    exact ⟨hlength, hpairs⟩
  · cases h.symm.trans hrun
  · cases h.symm.trans hrun

/-- Packing succeeds just if the supplied names are the declared ones. -/
theorem packFields_ok_iff :
    (∃ values, packFields owner names ps = .ok values) ↔ (ps.map Prod.fst).Perm names := by
  constructor
  · rintro ⟨values, h⟩
    obtain ⟨hlength, hpairs⟩ := packFields_ok h
    exact map_fst_zip_values hlength ▸ (hpairs.map Prod.fst).symm
  · intro hperm
    rcases packFields_cases owner names ps with ⟨values, hrun, -⟩ | ⟨_, -, hfirst⟩ |
      ⟨extra, -, -, hcount⟩
    · exact ⟨values, hrun⟩
    · exact absurd hperm.symm.subperm hfirst.not_subperm
    · exact absurd (hperm.count_eq extra) (Nat.ne_of_gt hcount)

/-- With distinct names, values stand under the same names as they were supplied. -/
theorem getElem?_packFields (h : packFields owner names ps = .ok values) (hnodup : names.Nodup)
    {i : Nat} (hname : names[i]? = some name) (value : α) :
    values[i]? = some value ↔ (name, value) ∈ ps := by
  obtain ⟨hlength, hpairs⟩ := packFields_ok h
  rw [← hpairs.mem_iff]
  have hzip (v : α) : (names.zip values)[i]? = some (name, v) ↔ values[i]? = some v := by
    simp [List.getElem?_zip_eq_some, hname]
  constructor
  · intro hvalue
    exact List.mem_of_getElem? ((hzip value).2 hvalue)
  · intro hmem
    obtain ⟨j, hj⟩ := List.mem_iff_getElem?.1 hmem
    obtain ⟨hjname, hjvalue⟩ := List.getElem?_zip_eq_some.1 hj
    have hlt := (List.getElem?_eq_some_iff.1 hname).1
    rwa [← (List.getElem?_inj hlt hnodup).1 (hname.trans hjname.symm)] at hjvalue

/-- With distinct names, values are packed alike in whatever order they are supplied. -/
theorem packFields_ok_perm (hperm : qs.Perm ps) (hnodup : (ps.map Prod.fst).Nodup)
    (h : packFields owner names qs = .ok values) : packFields owner names ps = .ok values := by
  have hnames := (hperm.symm.map Prod.fst).trans (packFields_ok_iff.1 ⟨values, h⟩)
  have hdistinct := hnames.nodup_iff.1 hnodup
  obtain ⟨values', h'⟩ := packFields_ok_iff.2 hnames
  suffices values' = values from this ▸ h'
  refine List.ext_getElem? fun i => ?_
  obtain ⟨hlength, -⟩ := packFields_ok h
  obtain ⟨hlength', -⟩ := packFields_ok h'
  cases hname : names[i]? with
  | none =>
    have hle := List.getElem?_eq_none_iff.1 hname
    rw [List.getElem?_eq_none (by omega), List.getElem?_eq_none (by omega)]
  | some name =>
    refine Option.ext fun value => ?_
    rw [getElem?_packFields h hdistinct hname, getElem?_packFields h' hdistinct hname,
      hperm.mem_iff]

theorem packFields_error {e : Construct} (h : packFields owner names ps = .error e) :
    (∃ name, FirstMissing names (ps.map Prod.fst) name ∧ e = .missingField owner name) ∨
    ((∀ name, ¬ FirstMissing names (ps.map Prod.fst) name) ∧
      ∃ extra, names.count extra < (ps.map Prod.fst).count extra ∧
        e = .unknownField owner extra) := by
  rcases packFields_cases owner names ps with ⟨_, hrun, -⟩ | ⟨name, hrun, hfirst⟩ |
    ⟨extra, hrun, henough, hcount⟩
  · cases h.symm.trans hrun
  · exact .inl ⟨name, hfirst, Except.error.inj (h.symm.trans hrun)⟩
  · exact .inr ⟨fun name hfirst => hfirst.not_subperm henough, extra, hcount,
      Except.error.inj (h.symm.trans hrun)⟩

/-! ### Literals with named fields -/

theorem packed_ok_perm {β ε : Type} {wrap : Construct → ε} {make : List α → β} {b : β}
    (hperm : qs.Perm ps) (hnodup : (ps.map Prod.fst).Nodup)
    (h : ((packFields owner names qs).mapError wrap >>= fun values => pure (make values)) = .ok b) :
    ((packFields owner names ps).mapError wrap >>= fun values => pure (make values)) = .ok b := by
  cases hpack : packFields owner names qs with
  | error e =>
    rw [hpack] at h
    cases h
  | ok values =>
    rw [hpack] at h
    rwa [packFields_ok_perm hperm hnodup hpack]

/-- A literal is the same in whatever order its fields are written, unless its path names no
type and none is needed: then there is no declaration to go by. -/
theorem Scope.structTerm_ok_perm {scope : Scope} {a : Arena} {p : Ast.Path} {pos : Position}
    {xs ys : List (String × Term)} {t : Term}
    (hdeclared : scope.strict ∨ (scope.variantOf a p).isSome ∨ (scope.structOf a p).isSome)
    (hperm : ys.Perm xs) (hnodup : (xs.map Prod.fst).Nodup) (h : scope.structTerm a p ys pos = .ok t) :
    scope.structTerm a p xs pos = .ok t := by
  unfold Scope.structTerm at h ⊢
  cases hv : scope.variantOf a p with
  | some v =>
    rw [hv] at h
    dsimp only at h ⊢
    cases hshape : v.variant.shape with
    | struct fields =>
      rw [hshape] at h
      exact packed_ok_perm hperm hnodup h
    | _ =>
      rw [hshape] at h
      cases h
  | none =>
    rw [hv] at h hdeclared
    dsimp only at h ⊢
    cases hs : scope.structOf a p with
    | some type =>
      rw [hs] at h
      exact packed_ok_perm hperm hnodup h
    | none =>
      have hstrict : scope.strict = true := by simpa [hs] using hdeclared
      rw [hs] at h
      simp only [hstrict, if_true] at h
      cases h

/-- **Field values are packed by declaration.**  Packing succeeds just if the supplied names are
the declared ones, each as often.  There is one value for each declared name, and with distinct
names it is the one supplied under that name.  Otherwise the error names the first declared name
left without a value or, if all have one, a name that is supplied more often than declared.  So
a literal is the same in whatever order its fields are written, if its path names a type or has
to. -/
theorem packFields_byDeclaration (owner : String) (names : List String)
    (supplied : List (String × Term)) :
    ((∃ values, packFields owner names supplied = .ok values) ↔
      (supplied.map Prod.fst).Perm names) ∧
    (∀ values, packFields owner names supplied = .ok values → values.length = names.length ∧
      (names.Nodup → ∀ (i : Nat) (name : String), names[i]? = some name →
        ∀ value, values[i]? = some value ↔ (name, value) ∈ supplied)) ∧
    (∀ e, packFields owner names supplied = .error e →
      (∃ name, FirstMissing names (supplied.map Prod.fst) name ∧ e = .missingField owner name) ∨
      ((∀ name, ¬ FirstMissing names (supplied.map Prod.fst) name) ∧
        ∃ extra, names.count extra < (supplied.map Prod.fst).count extra ∧
          e = .unknownField owner extra)) ∧
    (∀ written, written.Perm supplied → (supplied.map Prod.fst).Nodup →
      (∀ values, packFields owner names written = .ok values ↔
        packFields owner names supplied = .ok values) ∧
      ∀ (scope : Scope) (a : Arena) (p : Ast.Path) (pos : Position) (t : Term),
        scope.strict ∨ (scope.variantOf a p).isSome ∨ (scope.structOf a p).isSome →
        (scope.structTerm a p written pos = .ok t ↔ scope.structTerm a p supplied pos = .ok t)) := by
  refine ⟨packFields_ok_iff, fun values h => ?_, fun e he => packFields_error he,
    fun written hperm hnodup => ?_⟩
  · exact ⟨(packFields_ok h).1, fun hnodup i name hname => getElem?_packFields h hnodup hname⟩
  · have hwritten : (written.map Prod.fst).Nodup := (hperm.map Prod.fst).nodup_iff.2 hnodup
    exact ⟨fun values =>
        ⟨packFields_ok_perm hperm hnodup, packFields_ok_perm hperm.symm hwritten⟩,
      fun scope a p pos t hdeclared => ⟨Scope.structTerm_ok_perm hdeclared hperm hnodup,
        Scope.structTerm_ok_perm hdeclared hperm.symm hwritten⟩⟩

/-- Three values under their names. -/
def spacePoint : List (String × Term) :=
  [("x", .mk (.literal (.int 1)) .i32 .start), ("y", .mk (.literal (.int 2)) .i32 .start),
    ("z", .mk (.literal (.int 3)) .i32 .start)]

theorem packFields_byDeclaration_reversed :
    (spacePoint.map Prod.fst).Nodup ∧ spacePoint.reverse.Perm spacePoint ∧
    packFields "P" ["x", "y", "z"] spacePoint.reverse = .ok (spacePoint.map Prod.snd) ∧
    ∃ extra, ["x", "y"].count extra < (spacePoint.map Prod.fst).count extra ∧
      packFields "P" ["x", "y"] spacePoint = .error (.unknownField "P" extra) := by
  obtain ⟨-, -, -, horder⟩ := packFields_byDeclaration "P" ["x", "y", "z"] spacePoint
  obtain ⟨-, -, herror, -⟩ := packFields_byDeclaration "P" ["x", "y"] spacePoint
  have hnodup : (spacePoint.map Prod.fst).Nodup := by decide
  have hperm : spacePoint.reverse.Perm spacePoint := spacePoint.reverse_perm
  refine ⟨hnodup, hperm, ((horder _ hperm hnodup).1 _).2 rfl, ?_⟩
  rcases herror (.unknownField "P" "z") rfl with ⟨name, -, hname⟩ | ⟨-, extra, hcount, hextra⟩
  · cases hname
  · exact ⟨extra, hcount, hextra ▸ rfl⟩

end RustFlow
