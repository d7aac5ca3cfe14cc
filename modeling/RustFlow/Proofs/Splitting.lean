/-
# Texts that can be taken apart

A text written piece by piece can be read again if each piece shows where it ends.  The
lemmas here are about two texts that are equal and were each put together from pieces: the
pieces are then equal one by one.

* A word ends where a character of another class follows (`append_inj_of_all`).
* A list with separators ends where something other than the separator follows, if each of its
  items can be told from what follows it (`intercalate_inj`).

`isWordChar` is the class of characters that names, raw ones included, and numbers are made of;
no bracket, separator or marker belongs to it.
-/

import RustFlow.Token.Numeral
import Mathlib.Data.List.TakeWhile

namespace RustFlow

/-! ### Pieces -/

/-- What can be decided of each character of a list is decided along the list; deciding the
quantifier itself may run over every character there is. -/
theorem forall_mem_of_all {p : Char → Prop} [DecidablePred p] {u : List Char}
    (h : u.all (fun c => decide (p c)) = true) : ∀ c ∈ u, p c := by
  simpa using h

/-- Two runs of one class of characters, each followed by something else, are one run. -/
theorem append_inj_of_all {p : Char → Bool} {u v r r' : List Char} (hu : ∀ c ∈ u, p c = true)
    (hv : ∀ c ∈ v, p c = true) (hr : ∀ c ∈ r.head?, p c = false) (hr' : ∀ c ∈ r'.head?, p c = false)
    (h : u ++ r = v ++ r') : u = v ∧ r = r' := by
  have hstop : ∀ {w : List Char}, (∀ c ∈ w.head?, p c = false) → w.takeWhile p = [] := by
    intro w hw
    cases w with
    | nil => rfl
    | cons c w => rw [List.takeWhile_cons, hw c rfl, if_neg Bool.false_ne_true]
  have htake := congrArg (List.takeWhile p) h
  rw [List.takeWhile_append_of_pos hu, List.takeWhile_append_of_pos hv, hstop hr, hstop hr',
    List.append_nil, List.append_nil] at htake
  subst v
  exact ⟨rfl, List.append_cancel_left h⟩

/-- What follows the first of some separated items. -/
def afterFirst (sep : List Char) (r : List Char) : List (List Char) → List Char
  | [] => r
  | u :: us => sep ++ (sep.intercalate (u :: us) ++ r)

theorem intercalate_cons (sep r u : List Char) (us : List (List Char)) :
    sep.intercalate (u :: us) ++ r = u ++ afterFirst sep r us := by
  cases us <;> simp [afterFirst]

/-- **Separated items can be told apart.**  Items are given that can be told from what may
follow them (`F`), as the separator may; what follows the whole may follow an item, and neither
starts with the separator nor looks like an item. -/
theorem intercalate_inj {α : Type} {text : α → List Char} {sep : List Char}
    {F : List Char → Prop} {xs ys : List α} {r r' : List Char}
    (hitem : ∀ x ∈ xs, ∀ y ∈ ys, ∀ u u', F u → F u' → text x ++ u = text y ++ u' →
      x = y ∧ u = u')
    (hsep : ∀ u, F (sep ++ u)) (hr : F r) (hr' : F r') (hstop : ∀ u, r ≠ sep ++ u)
    (hstop' : ∀ u, r' ≠ sep ++ u) (hxs : ∀ x ∈ xs, ∀ u, text x ++ u ≠ r')
    (hys : ∀ y ∈ ys, ∀ u, text y ++ u ≠ r)
    (h : sep.intercalate (xs.map text) ++ r = sep.intercalate (ys.map text) ++ r') :
    xs = ys ∧ r = r' := by
  induction xs generalizing ys with
  | nil =>
    cases ys with
    | nil => exact ⟨rfl, by simpa using h⟩
    | cons y ys =>
      rw [List.map_cons, intercalate_cons] at h
      exact absurd h.symm (hys y List.mem_cons_self _)
  | cons x xs ih =>
    cases ys with
    | nil =>
      rw [List.map_cons, intercalate_cons] at h
      exact absurd h (hxs x List.mem_cons_self _)
    | cons y ys =>
      have hafter (zs : List α) {u : List Char} (hu : F u) : F (afterFirst sep u (zs.map text)) := by
        cases zs with
        | nil => exact hu
        | cons z zs => exact hsep _
      rw [List.map_cons, List.map_cons, intercalate_cons, intercalate_cons] at h
      obtain ⟨rfl, htail⟩ := hitem x List.mem_cons_self y List.mem_cons_self _ _ (hafter xs hr)
        (hafter ys hr') h
      cases xs with
      | nil =>
        cases ys with
        | nil => exact ⟨rfl, htail⟩
        | cons y' ys => exact absurd htail (hstop _)
      | cons x' xs =>
        cases ys with
        | nil => exact absurd htail.symm (hstop' _)
        | cons y' ys =>
          obtain ⟨heq, hrest⟩ := ih (fun z hz w hw => hitem z (List.mem_cons_of_mem _ hz) w
            (List.mem_cons_of_mem _ hw)) (fun z hz => hxs z (List.mem_cons_of_mem _ hz))
            (fun w hw => hys w (List.mem_cons_of_mem _ hw)) (List.append_cancel_left htail)
          exact ⟨by rw [heq], hrest⟩

/-! ### Numbers -/

theorem toList_toString (n : Nat) : (toString n).toList = Nat.toDigits 10 n := by
  rw [Nat.toString_eq_ofList_toDigits, String.toList_ofList]

theorem toDigits_inj {n m : Nat} (h : Nat.toDigits 10 n = Nat.toDigits 10 m) : n = m := by
  rw [← Nat.ofDigitChars_ten_toDigits (n := n), h, Nat.ofDigitChars_ten_toDigits]

theorem isDigit_of_mem_toDigits {n : Nat} {c : Char} (h : c ∈ Nat.toDigits 10 n) :
    c.isDigit = true :=
  Nat.isDigit_of_mem_toDigits (by decide) (by decide) h

/-! ### Words -/

namespace Text

/-- Whether a character may stand in a name, a raw one included. -/
def isWordChar (c : Char) : Bool := isIdentContinue c || c == '#'

/-- Whether a text is an identifier, raw or not. -/
def isIdentifier (name : String) : Bool :=
  match name.toList with
  | 'r' :: '#' :: cs => Numeral.isIdent cs
  | cs => Numeral.isIdent cs

theorem isIdentContinue_of_isIdentStart {c : Char} (h : isIdentStart c = true) :
    isIdentContinue c = true := by
  unfold isIdentStart at h
  unfold isIdentContinue
  split
  · rename_i hascii
    rw [if_pos hascii, Bool.or_eq_true] at h
    rw [Bool.or_eq_true, Char.isAlphanum, Bool.or_eq_true]
    exact h.imp_left .inl
  · rename_i hascii
    rw [if_neg hascii] at h
    rw [h, Bool.true_or]

theorem isWordChar_of_isDigit {c : Char} (h : c.isDigit = true) : isWordChar c = true := by
  have hascii : c.toNat < 0x80 := by
    rw [Char.isDigit, Bool.and_eq_true, decide_eq_true_eq, decide_eq_true_eq] at h
    have hle : c.toNat ≤ 57 := h.2
    omega
  rw [isWordChar, isIdentContinue, if_pos hascii, Char.isAlphanum, h]
  simp

/-- An identifier starts with the start of one and goes on so. -/
theorem isIdent_cases {cs : List Char} (h : Numeral.isIdent cs = true) :
    ∃ c rest, cs = c :: rest ∧ isIdentStart c = true ∧ ∀ d ∈ rest, isIdentContinue d = true := by
  cases cs with
  | nil => cases h
  | cons c rest =>
    simp only [Numeral.isIdent, Numeral.splitIdent, List.isEmpty_cons, Bool.not_false,
      Bool.true_and] at h
    split at h
    · rename_i hstart
      exact ⟨c, rest, rfl, hstart, List.dropWhile_eq_nil_iff.1 (List.isEmpty_iff.1 h)⟩
    · cases h

theorem isIdentifier_cases {name : String} (h : isIdentifier name = true) :
    ∃ c rest, name.toList = c :: rest ∧ isIdentStart c = true ∧
      ∀ d ∈ rest, isWordChar d = true := by
  have hword {d : Char} (hd : isIdentContinue d = true) : isWordChar d = true := by
    rw [isWordChar, hd, Bool.true_or]
  unfold isIdentifier at h
  split at h
  · rename_i cs hname
    obtain ⟨c, rest, rfl, hstart, hrest⟩ := isIdent_cases h
    refine ⟨'r', '#' :: c :: rest, hname, by decide, ?_⟩
    refine List.forall_mem_cons.2 ⟨by decide, List.forall_mem_cons.2 ⟨?_, fun d hd => hword (hrest d hd)⟩⟩
    exact hword (isIdentContinue_of_isIdentStart hstart)
  · obtain ⟨c, rest, hname, hstart, hrest⟩ := isIdent_cases h
    exact ⟨c, rest, hname, hstart, fun d hd => hword (hrest d hd)⟩

theorem isWordChar_of_isIdentStart {c : Char} (h : isIdentStart c = true) : isWordChar c = true := by
  rw [isWordChar, isIdentContinue_of_isIdentStart h, Bool.true_or]

theorem isWordChar_of_isIdentifier {name : String} (h : isIdentifier name = true) :
    ∀ c ∈ name.toList, isWordChar c = true := by
  obtain ⟨c, rest, hname, hstart, hrest⟩ := isIdentifier_cases h
  rw [hname]
  exact List.forall_mem_cons.2 ⟨isWordChar_of_isIdentStart hstart, hrest⟩

end Text

end RustFlow
