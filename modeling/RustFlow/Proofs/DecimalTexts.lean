/-
# Numbers read back from their texts

Every number reads back from its text (`parse?_render`), so no two numbers have one text.  The
text of a finite number is a decimal that was seen to read back, or else the one with all digits.
That one is read as its digits and its exponent (`parse?_exactText`).  It stands for the number
itself, so nothing is lost when it is rounded (`ofQuotient_exact`), and its magnitude is within the
bounds at which rounding is tried (`ofDecimal_exact`).
-/

import Mathlib.Algebra.Order.Ring.Nat
import RustFlow.Binary64.Shortest
import RustFlow.Proofs.Splitting

namespace RustFlow
namespace Binary64

variable {m s : Nat}

/-! ### Rounding -/

theorem isForm_spec (form : isForm m s = true) :
    m < 2 ^ 53 ∧ (s = 0 ∨ 2 ^ 52 ≤ m) ∧ s ≤ 2045 := by
  simpa [isForm, and_assoc] using form

theorem log2_of_isForm (form : isForm m s = true) (hm : m ≠ 0) :
    Nat.log2 (m * 2 ^ s) - 52 = s := by
  obtain ⟨hlt, rfl | hfull, -⟩ := isForm_spec form
  · rw [Nat.pow_zero, Nat.mul_one]
    have hlog : Nat.log2 m < 53 := (Nat.log2_lt hm).2 hlt
    omega
  · have hlog : Nat.log2 (m * 2 ^ s) = 52 + s := by
      refine (Nat.log2_eq_iff (Nat.mul_ne_zero hm (Nat.two_pow_pos s).ne')).2 ⟨?_, ?_⟩
      · rw [Nat.pow_add]
        exact Nat.mul_le_mul_right _ hfull
      · rw [Nat.add_right_comm, Nat.pow_add]
        exact Nat.mul_lt_mul_of_pos_right hlt (Nat.two_pow_pos s)
    rw [hlog, Nat.add_sub_cancel_left]

theorem roundQuotient_mul (m : Nat) {d : Nat} (hd : 0 < d) : roundQuotient (m * d) d = m := by
  simp [roundQuotient, Nat.mul_div_cancel m hd, hd.ne]

/-- A quotient that is a value is not changed by rounding. -/
theorem ofQuotient_exact (form : isForm m s = true) (hm : m ≠ 0) {num den : Nat} (hden : 0 < den)
    (h : Nat.pow 2 places * num = m * 2 ^ s * den) (negative : Bool) :
    ofQuotient negative num den = finite negative m s form := by
  have hshift : Nat.log2 (m * 2 ^ s * den / den) - 52 = s := by
    rw [Nat.mul_div_cancel _ hden, log2_of_isForm form hm]
  have hround : roundQuotient (m * 2 ^ s * den) (den * Nat.pow 2 s) = m := by
    rw [Nat.mul_assoc, Nat.mul_comm (2 ^ s)]
    exact roundQuotient_mul m (Nat.mul_pos hden (Nat.two_pow_pos s))
  have hsmall : m ≠ Nat.pow 2 53 := (isForm_spec form).1.ne
  simp only [ofQuotient, h, hshift, hround, if_neg hsmall]
  exact dif_pos form

/-- A number is neither too large nor too small for its digits to be rounded. -/
theorem length_exact (form : isForm m s = true) (hm : m ≠ 0) :
    places - 331 < (Nat.toDigits 10 (m * 2 ^ s * 5 ^ places)).length ∧
      (Nat.toDigits 10 (m * 2 ^ s * 5 ^ places)).length ≤ places + 310 := by
  obtain ⟨hlt, -, hshift⟩ := isForm_spec form
  have habove : 10 ^ (places - 331) ≤ m * 2 ^ s * 5 ^ places :=
    calc 10 ^ (places - 331) ≤ 1 * 5 ^ places := by decide +kernel
      _ ≤ m * 2 ^ s * 5 ^ places := Nat.mul_le_mul_right _
        (Nat.mul_pos (Nat.pos_of_ne_zero hm) (Nat.two_pow_pos s))
  have hbelow : m * 2 ^ s * 5 ^ places < 10 ^ (places + 310) :=
    calc m * 2 ^ s * 5 ^ places ≤ 2 ^ 53 * 2 ^ 2045 * 5 ^ places :=
          Nat.mul_le_mul_right _ (Nat.mul_le_mul hlt.le (Nat.pow_le_pow_right (by decide) hshift))
      _ < 10 ^ (places + 310) := by decide +kernel
  refine ⟨Nat.not_le.1 fun hle => Nat.not_lt.2 habove ?_,
    (Nat.length_toDigits_le_iff (by decide) (by decide)).2 hbelow⟩
  exact (Nat.length_toDigits_le_iff (by decide) (by decide)).1 hle

/-- The digits of a number and the count of its places are read as the number. -/
theorem ofDecimal_exact (form : isForm m s = true) (hm : m ≠ 0) (negative : Bool) :
    ofDecimal negative (m * 2 ^ s * 5 ^ places) (-(places : Int)) = finite negative m s form := by
  have hne : m * 2 ^ s * 5 ^ places ≠ 0 := Nat.mul_ne_zero
    (Nat.mul_ne_zero hm (Nat.two_pow_pos s).ne') (Nat.pow_pos (by decide)).ne'
  have hexact : Nat.pow 2 places * (m * 2 ^ s * 5 ^ places) = m * 2 ^ s * Nat.pow 10 places := by
    rw [Nat.pow_eq, Nat.pow_eq, Nat.mul_left_comm, ← Nat.mul_pow]
  have hten : 0 < Nat.pow 10 places := by
    rw [Nat.pow_eq]
    exact Nat.pow_pos (by decide)
  have hquotient := ofQuotient_exact form hm hten hexact negative
  obtain ⟨hmin, hmax⟩ := length_exact form hm
  generalize m * 2 ^ s * 5 ^ places = n at *
  have hplaces : places = 1074 := rfl
  rw [ofDecimal, if_neg hne]
  dsimp only
  rw [if_neg (by omega), if_neg (by omega), if_pos (by omega), Int.natAbs_neg, Int.natAbs_natCast]
  exact hquotient

/-! ### Reading -/

theorem readDigits_append {ds r : List Char} (hds : ∀ c ∈ ds, c.isDigit = true)
    (hr : ∀ c ∈ r.head?, c.isDigit = false) (acc n : Nat) :
    readDigits acc n (ds ++ r) = (Nat.ofDigitChars 10 ds acc, n + ds.length, r) := by
  induction ds generalizing acc n with
  | nil =>
    cases r with
    | nil => rfl
    | cons c r => simp [readDigits, hr c rfl]
  | cons c ds ih =>
    obtain ⟨hc, hds⟩ := List.forall_mem_cons.1 hds
    rw [List.cons_append, readDigits, if_pos hc, ih hds, Nat.ofDigitChars_cons, Nat.mul_comm,
      List.length_cons]
    congr 2
    omega

theorem toLower_of_isDigit {c : Char} (hc : c.isDigit = true) : c.toLower = c := by
  have hle : c.val ≤ 57 := (Bool.and_eq_true_iff.1 hc).2 |> of_decide_eq_true
  refine dif_neg fun h => ?_
  exact absurd (UInt32.le_trans h.1 hle) (by decide)

/-- A text that starts with a digit after the sign is read as a decimal. -/
theorem parse?_of_digit {c : Char} {cs : List Char} (hc : c.isDigit = true) (negative : Bool)
    {t : String} (ht : t.toList = (signText negative).toList ++ c :: cs) :
    parse? t = readDecimal negative (c :: cs) := by
  have hne {d : Char} (hd : d.isDigit = false) : c ≠ d := by
    rintro rfl
    cases hc.symm.trans hd
  have hword (w : String) (hw : w.toList.head?.any Char.isDigit = false) :
      String.ofList ((c :: cs).map Char.toLower) ≠ w := by
    rintro rfl
    rw [String.toList_ofList, List.map_cons, toLower_of_isDigit hc] at hw
    cases hc.symm.trans hw
  have hinf := hword "inf" (by decide)
  have hinfinity := hword "infinity" (by decide)
  have hnan := hword "nan" (by decide)
  unfold parse?
  cases negative with
  | true => simp [-List.map_cons, ht, signText, hinf, hinfinity, hnan]
  | false =>
    simp [-List.map_cons, ht, signText, hne (d := '-') (by decide), hne (d := '+') (by decide),
      hinf, hinfinity, hnan]

theorem readDigits_toDigits (n : Nat) {r : List Char} (hr : ∀ c ∈ r.head?, c.isDigit = false) :
    readDigits 0 0 (Nat.toDigits 10 n ++ r) = (n, (Nat.toDigits 10 n).length, r) := by
  rw [readDigits_append (fun c => isDigit_of_mem_toDigits) hr, Nat.ofDigitChars_ten_toDigits,
    Nat.zero_add]

theorem readDecimal_exact (negative : Bool) (n k : Nat) :
    readDecimal negative (Nat.toDigits 10 n ++ 'e' :: '-' :: Nat.toDigits 10 k) =
      some (ofDecimal negative n (-(k : Int))) := by
  have hn := readDigits_toDigits n (r := 'e' :: '-' :: Nat.toDigits 10 k) fun c hc => by
    cases hc
    decide
  have hk := readDigits_toDigits k (r := []) (by simp)
  have hlength (i : Nat) : (Nat.toDigits 10 i).length ≠ 0 := Nat.length_toDigits_pos.ne'
  rw [List.append_nil] at hk
  simp [readDecimal, readExponent, hn, hk, hlength]

theorem parse?_exactText (form : isForm m s = true) (hm : m ≠ 0) (negative : Bool) :
    parse? (exactText negative (m * 2 ^ s)) = some (finite negative m s form) := by
  obtain ⟨c, cs, hcons⟩ := List.exists_cons_of_ne_nil
    (@Nat.toDigits_ne_nil (m * 2 ^ s * 5 ^ places) 10)
  have hc : c.isDigit = true := isDigit_of_mem_toDigits (hcons ▸ List.mem_cons_self)
  have htext : (exactText negative (m * 2 ^ s)).toList =
      (signText negative).toList ++ c :: (cs ++ 'e' :: '-' :: Nat.toDigits 10 places) := by
    simp [exactText, hcons]
  rw [parse?_of_digit hc negative htext, ← List.cons_append, ← hcons, readDecimal_exact,
    ofDecimal_exact form hm]

/-- **Every number reads back from its text.** -/
theorem parse?_render (x : Binary64) : parse? x.render = some x := by
  cases x with
  | nan => decide
  | infinite negative => cases negative <;> decide
  | finite negative m s form =>
    have hrender : (finite negative m s form).render =
        if m = 0 then signText negative ++ "0.0"
        else ((gridTexts negative (m * 2 ^ s) 17 (leadingExponent (m * 2 ^ s))).find? fun t =>
          parse? t == some (finite negative m s form)).getD (exactText negative (m * 2 ^ s)) := rfl
    rw [hrender]
    split
    · rename_i hm
      subst hm
      obtain rfl : s = 0 := (isForm_spec form).2.1.resolve_right (by decide)
      have hzero : parse? (signText negative ++ "0.0") = some (zero negative) := by
        cases negative <;> decide
      exact hzero
    · rename_i hm
      cases hfound : List.find? _ _ with
      | none => exact parse?_exactText form hm negative
      | some t =>
        have hread := List.find?_some hfound
        exact eq_of_beq hread

end Binary64
end RustFlow
