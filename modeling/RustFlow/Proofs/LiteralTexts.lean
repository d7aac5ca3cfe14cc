/-
# Names and literals as text

A pattern, and each end of a range, starts with a name, a path or a literal, or with nothing.  Such
a lead can be told from whatever may follow it (`Lead.append_inj`).

* Between quotes every character is written as itself or as an escape, and the escapes are those
  that the reader of quoted literals knows (`quoteChar_cases`), so a quoted text shows its
  characters and its end.
* A number, a path or a literal of letters ends before two points and before a character that can
  stand in none of them (`Text.stem`).
-/

import RustFlow.Proofs.Splitting
import RustFlow.Term.Render
import RustFlow.Token.Quotation

namespace RustFlow

/-! ### Hexadecimal numbers -/

namespace Text

/-- The value of hexadecimal digits after a number. -/
def hexValue (value : Nat) (ds : List Char) : Nat :=
  ds.foldl (fun v c => v * 16 + (Numeral.digit? c).getD 0) value

theorem digit?_digitChar : ∀ d < 16, Numeral.digit? d.digitChar = some d := by
  decide

theorem isSome_digit?_of_mem {n : Nat} : ∀ c ∈ Nat.toDigits 16 n, (Numeral.digit? c).isSome := by
  induction n using Nat.strongRecOn with
  | ind n ih =>
    rcases Nat.lt_or_ge n 16 with hlt | hge
    · rw [Nat.toDigits_of_lt_base hlt]
      simp [digit?_digitChar n hlt]
    · rw [Nat.toDigits_of_base_le (by decide) hge]
      intro c hc
      rcases List.mem_append.1 hc with hc | hc
      · exact ih (n / 16) (by omega) c hc
      · rw [List.mem_singleton.1 hc, digit?_digitChar _ (Nat.mod_lt _ (by decide))]
        rfl

theorem hexValue_toDigits (n : Nat) : hexValue 0 (Nat.toDigits 16 n) = n := by
  induction n using Nat.strongRecOn with
  | ind n ih =>
    rcases Nat.lt_or_ge n 16 with hlt | hge
    · rw [Nat.toDigits_of_lt_base hlt]
      simp [hexValue, digit?_digitChar n hlt]
    · have hhigh := ih (n / 16) (by omega)
      rw [hexValue] at hhigh
      rw [Nat.toDigits_of_base_le (by decide) hge, hexValue, List.foldl_append, hhigh]
      simp only [List.foldl_cons, List.foldl_nil, digit?_digitChar _ (Nat.mod_lt n (by decide : 0 < 16)),
        Option.getD_some]
      omega

end Text

/-! ### Quoted literals -/

namespace Quotation

open Text

theorem unicodeDigits_append {ds : List Char} (hds : ∀ c ∈ ds, (Numeral.digit? c).isSome)
    {count value : Nat} (hpos : 0 < count + ds.length) (hle : count + ds.length ≤ 6)
    (hvalid : (hexValue value ds).isValidChar) (r : List Char) :
    unicodeDigits count value (ds ++ '\x7d' :: r) = some (Char.ofNat (hexValue value ds), r) := by
  induction ds generalizing count value with
  | nil =>
    have hcount : count ≠ 0 := by simpa using hpos.ne'
    have hnone : Numeral.digit? '\x7d' = none := by decide
    have hvalid : value.isValidChar := hvalid
    simp [unicodeDigits, hnone, hcount, hexValue, hvalid]
  | cons c ds ih =>
    obtain ⟨hc, hds⟩ := List.forall_mem_cons.1 hds
    obtain ⟨d, hd⟩ := Option.isSome_iff_exists.1 hc
    have hstep : hexValue value (c :: ds) = hexValue (value * 16 + d) ds := by
      simp [hexValue, hd]
    rw [List.length_cons] at hpos hle
    rw [hstep] at hvalid ⊢
    rw [List.cons_append, unicodeDigits, hd]
    simp only
    rw [if_neg (by omega), ih hds (by omega) (by omega) hvalid]

/-- A character written by number is read back. -/
theorem escape_unicode (c : Char) (r : List Char) :
    escape .text ('u' :: '\x7b' :: ((hexText c.toNat).toList ++ '\x7d' :: r)) = some (c, r) := by
  have hvalid : c.toNat.isValidChar := c.valid
  have hlen : (Nat.toDigits 16 c.toNat).length ≤ 6 := by
    rw [Nat.length_toDigits_le_iff (by decide) (by decide)]
    rcases hvalid with h | ⟨-, h⟩ <;> omega
  have hpos := @Nat.length_toDigits_pos 16 c.toNat
  have hread := @unicodeDigits_append (Nat.toDigits 16 c.toNat) isSome_digit?_of_mem 0 0 (by omega)
    (by omega) (by rwa [hexValue_toDigits]) r
  rw [hexValue_toDigits, Char.ofNat_toNat] at hread
  simp [escape, hexText, hread]

/-- What a quoted character is written as: itself, or an escape after a backslash. -/
theorem quoteChar_cases {mark : Char} (hmark : mark = '\'' ∨ mark = '"') (c : Char) :
    ((quoteChar mark c).toList = [c] ∧ c ≠ mark ∧ c ≠ '\\') ∨
      ∃ d cs, (quoteChar mark c).toList = '\\' :: d :: cs ∧
        ∀ r, escape .text (d :: (cs ++ r)) = some (c, r) := by
  unfold quoteChar
  by_cases h0 : c = '\x00'
  · subst h0
    exact .inr ⟨'0', [], by simp, fun r => rfl⟩
  by_cases ht : c = '\t'
  · subst ht
    exact .inr ⟨'t', [], by simp, fun r => rfl⟩
  by_cases hr : c = '\r'
  · subst hr
    exact .inr ⟨'r', [], by simp, fun r => rfl⟩
  by_cases hn : c = '\n'
  · subst hn
    exact .inr ⟨'n', [], by simp, fun r => rfl⟩
  by_cases hb : c = '\\'
  · subst hb
    exact .inr ⟨'\\', [], by simp, fun r => rfl⟩
  by_cases hm : c = mark
  · subst hm
    rcases hmark with rfl | rfl
    · exact .inr ⟨'\'', [], by simp, fun r => rfl⟩
    · exact .inr ⟨'"', [], by simp, fun r => rfl⟩
  simp only [h0, ht, hr, hn, hb, hm, decide_false, Bool.or_self, Bool.false_eq_true, if_false]
  split
  · refine .inr ⟨'u', '\x7b' :: ((hexText c.toNat).toList ++ ['\x7d']), by simp, fun r => ?_⟩
    rw [List.cons_append, List.append_assoc]
    exact escape_unicode c r
  · exact .inl ⟨by simp, hm, hb⟩

theorem quoteChar_inj {mark : Char} (hmark : mark = '\'' ∨ mark = '"') {c c' : Char}
    {r r' : List Char} (h : (quoteChar mark c).toList ++ r = (quoteChar mark c').toList ++ r') :
    c = c' ∧ r = r' := by
  rcases quoteChar_cases hmark c with ⟨hc, -, hb⟩ | ⟨d, cs, hc, hescape⟩ <;>
    rcases quoteChar_cases hmark c' with ⟨hc', -, hb'⟩ | ⟨d', cs', hc', hescape'⟩ <;>
    rw [hc, hc'] at h
  · exact List.cons.inj h
  · exact absurd (List.cons.inj h).1 hb
  · exact absurd (List.cons.inj h).1.symm hb'
  · have htail : d :: (cs ++ r) = d' :: (cs' ++ r') := (List.cons.inj h).2
    have hsame := hescape r
    rw [htail, hescape' r'] at hsame
    simpa using hsame.symm

theorem quoteChar_ne {mark : Char} (hmark : mark = '\'' ∨ mark = '"') (c : Char)
    (r u : List Char) : (quoteChar mark c).toList ++ r ≠ mark :: u := by
  rcases quoteChar_cases hmark c with ⟨hc, hne, -⟩ | ⟨d, cs, hc, -⟩ <;> rw [hc]
  · exact fun h => hne (List.cons.inj h).1
  · intro h
    rcases hmark with rfl | rfl <;> exact absurd (List.cons.inj h).1 (by decide)

theorem quotedChars_inj {cs cs' r r' : List Char}
    (h : cs.flatMap (fun c => (quoteChar '"' c).toList) ++ '"' :: r =
      cs'.flatMap (fun c => (quoteChar '"' c).toList) ++ '"' :: r') : cs = cs' ∧ r = r' := by
  induction cs generalizing cs' with
  | nil =>
    cases cs' with
    | nil => simpa using h
    | cons c' cs' =>
      rw [List.flatMap_cons, List.append_assoc] at h
      exact absurd h.symm (quoteChar_ne (.inr rfl) c' _ _)
  | cons c cs ih =>
    cases cs' with
    | nil =>
      rw [List.flatMap_cons, List.append_assoc] at h
      exact absurd h (quoteChar_ne (.inr rfl) c _ _)
    | cons c' cs' =>
      rw [List.flatMap_cons, List.flatMap_cons, List.append_assoc, List.append_assoc] at h
      obtain ⟨rfl, htail⟩ := quoteChar_inj (.inr rfl) h
      obtain ⟨rfl, hr⟩ := ih htail
      exact ⟨rfl, hr⟩

/-- **A character can be told from its quoted text.** -/
theorem quotedChar_inj {c c' : Char} {r r' : List Char}
    (h : (quotedChar c).toList ++ r = (quotedChar c').toList ++ r') : c = c' ∧ r = r' := by
  simp only [quotedChar, String.toList_append, List.append_assoc] at h
  obtain ⟨rfl, htail⟩ := quoteChar_inj (.inl rfl) (List.append_cancel_left h)
  exact ⟨rfl, List.append_cancel_left htail⟩

/-- **A string can be told from its quoted text.** -/
theorem quotedString_inj {s s' : String} {r r' : List Char}
    (h : (quotedString s).toList ++ r = (quotedString s').toList ++ r') : s = s' ∧ r = r' := by
  have htext (s : String) (r : List Char) : (quotedString s).toList ++ r =
      '"' :: (s.toList.flatMap (fun c => (quoteChar '"' c).toList) ++ '"' :: r) := by
    simp [quotedString, String.toList_join, List.flatMap]
    rfl
  rw [htext, htext] at h
  obtain ⟨hs, hr⟩ := quotedChars_inj (List.cons.inj h).2
  exact ⟨String.toList_inj.1 hs, hr⟩

end Quotation

/-! ### Numbers and names -/

namespace Text

/-- Whether a character may stand in a number, a path or the literal of a unit struct. -/
def isStemChar (c : Char) : Bool := isWordChar c || c ∈ [':', '.', '-', '\x7b', '\x7d']

/-- The number, path or literal that a text starts with: it ends before two points and before a
character that belongs to none of them. -/
def stem : List Char → List Char
  | [] => []
  | [c] => if isStemChar c then [c] else []
  | c :: d :: cs =>
    if c == '.' && d == '.' then [] else if isStemChar c then c :: stem (d :: cs) else []

/-- Texts that are told from all that cannot go on with them. -/
def Solid (u : List Char) : Prop := ∀ r, stem r = [] → stem (u ++ r) = u

theorem stem_append {u : List Char} (hu : ∀ c ∈ u, isStemChar c = true ∧ c ≠ '.') (w : List Char) :
    stem (u ++ w) = u ++ stem w := by
  induction u with
  | nil => rfl
  | cons c u ih =>
    obtain ⟨⟨hc, hpoint⟩, hu⟩ := List.forall_mem_cons.1 hu
    rw [List.cons_append]
    cases hrest : u ++ w with
    | nil =>
      obtain ⟨rfl, rfl⟩ := List.append_eq_nil_iff.1 hrest
      simp [stem, hc]
    | cons d cs =>
      rw [stem, ← hrest, ih hu]
      simp [hc, hpoint]

/-- Whether a text consists of such characters and no point ends it or stands before another. -/
def isSolid : List Char → Bool
  | [] => true
  | c :: cs => isStemChar c && (c != '.' || cs.head?.any (· != '.')) && isSolid cs

theorem solid_of_isSolid {u : List Char} (hu : isSolid u = true) : Solid u := by
  intro r hr
  induction u with
  | nil => exact hr
  | cons c u ih =>
    simp only [isSolid, Bool.and_eq_true, Bool.or_eq_true, bne_iff_ne] at hu
    obtain ⟨⟨hc, hpoint⟩, hu⟩ := hu
    have hu := ih hu
    rcases hpoint with hpoint | hnext
    · rw [← List.singleton_append, List.append_assoc, stem_append (by simp [hc, hpoint]), hu]
    · cases u with
      | nil => cases hnext
      | cons d u =>
        have hd : d ≠ '.' := by simpa using hnext
        rw [List.cons_append] at hu
        simp [stem, hc, hd, hu]

theorem solid_of_all {u : List Char} (hu : ∀ c ∈ u, isStemChar c = true ∧ c ≠ '.') : Solid u := by
  intro r hr
  rw [stem_append hu, hr, List.append_nil]

theorem stem_of_not {c : Char} (hc : isStemChar c = false) (w : List Char) : stem (c :: w) = [] := by
  cases w <;> simp [stem, hc]

theorem isStemChar_of_isWordChar {c : Char} (h : isWordChar c = true) :
    isStemChar c = true ∧ c ≠ '.' := by
  refine ⟨by simp [isStemChar, h], ?_⟩
  rintro rfl
  exact absurd h (by decide)

end Text

/-! ### Leads -/

/-- What the text of a pattern starts with: nothing, a word, or a quoted literal. -/
inductive Lead where
  | blank
  | word (mutable : Bool) (text : String)
  | char (c : Char)
  | str (s : String)

namespace Lead

open Text Quotation

def text : Lead → List Char
  | blank => []
  | word mutable t => (Variable.mk t mutable).render.toList
  | char c => (quotedChar c).toList
  | str s => (quotedString s).toList

/-- A word shows where it ends, and is not the mark of a mutable variable. -/
def IsLegible : Lead → Prop
  | word _ t => Solid t.toList ∧ t ≠ "" ∧ t ≠ "mut"
  | _ => True

/-- The part of the text that is a number, a path or a literal of letters. -/
def stem : Lead → List Char
  | word true _ => ['m', 'u', 't']
  | word false t => t.toList
  | _ => []

/-- What ends a lead: no stem goes on, and no quoted literal starts. -/
def Ends (r : List Char) : Prop := Text.stem r = [] ∧ ∀ c ∈ r.head?, c ≠ '\'' ∧ c ≠ '"'

variable {L L' : Lead} {r r' : List Char}

theorem text_word (t : String) : (word false t).text = t.toList := by
  simp [text, Variable.render]

theorem text_mutable (t : String) : (word true t).text = ['m', 'u', 't'] ++ ' ' :: t.toList := by
  simp [text, Variable.render]

theorem text_char (c : Char) : ∃ u, (char c).text = '\'' :: u :=
  ⟨_, by simp [text, quotedChar]; rfl⟩

theorem text_str (s : String) : ∃ u, (str s).text = '"' :: u :=
  ⟨_, by simp [text, quotedString]; rfl⟩

theorem stem_text (hL : L.IsLegible) (hr : Text.stem r = []) : Text.stem (L.text ++ r) = L.stem := by
  cases L with
  | blank => exact hr
  | word mutable t =>
    cases mutable with
    | false =>
      rw [text_word]
      exact hL.1 r hr
    | true =>
      rw [text_mutable, List.append_assoc, stem_append (forall_mem_of_all (by decide))]
      exact congrArg _ (stem_of_not (by decide) _)
  | char c =>
    obtain ⟨u, hu⟩ := text_char c
    rw [hu]
    exact stem_of_not (by decide) _
  | str s =>
    obtain ⟨u, hu⟩ := text_str s
    rw [hu]
    exact stem_of_not (by decide) _

/-- A lead that is not blank starts with no separator, bracket or mark. -/
theorem IsLegible.head (hL : L.IsLegible) :
    L = blank ∨ ∃ c cs, L.text = c :: cs ∧ c ∉ [' ', ',', '(', ')', '&', '='] := by
  have hall : ∀ c ∈ [' ', ',', '(', ')', '&', '='], isStemChar c = false :=
    forall_mem_of_all (by decide)
  cases L with
  | blank => exact .inl rfl
  | word mutable t =>
    right
    cases mutable with
    | true => exact ⟨'m', _, text_mutable t, by decide⟩
    | false =>
      have hstem : Text.stem t.toList = t.toList := by simpa using hL.1 [] rfl
      obtain ⟨c, cs, hcons⟩ := List.exists_cons_of_ne_nil fun h => hL.2.1 (String.toList_eq_nil_iff.1 h)
      refine ⟨c, cs, (text_word t).trans hcons, fun hc => ?_⟩
      rw [hcons, stem_of_not (hall c hc)] at hstem
      cases hstem
  | char c =>
    obtain ⟨u, hu⟩ := text_char c
    exact .inr ⟨_, u, hu, by decide⟩
  | str s =>
    obtain ⟨u, hu⟩ := text_str s
    exact .inr ⟨_, u, hu, by decide⟩

/-- **A lead can be told from what follows it.** -/
theorem append_inj (hL : L.IsLegible) (hL' : L'.IsLegible) (hr : Ends r) (hr' : Ends r')
    (h : L.text ++ r = L'.text ++ r') : L = L' ∧ r = r' := by
  have hstem : L.stem = L'.stem := by rw [← stem_text hL hr.1, h, stem_text hL' hr'.1]
  have hword {t : String} (hw : (word false t).IsLegible) : t.toList ≠ [] ∧ t.toList ≠ ['m', 'u', 't'] :=
    ⟨fun h => hw.2.1 (String.toList_eq_nil_iff.1 h),
      fun h => hw.2.2 (String.toList_inj.1 (h.trans (by simp)))⟩
  have hchar (c : Char) {w v : List Char} (hw : Ends w) : w ≠ (char c).text ++ v := by
    obtain ⟨u, hu⟩ := text_char c
    rw [hu]
    rintro rfl
    exact (hw.2 _ rfl).1 rfl
  have hstr (s : String) {w v : List Char} (hw : Ends w) : w ≠ (str s).text ++ v := by
    obtain ⟨u, hu⟩ := text_str s
    rw [hu]
    rintro rfl
    exact (hw.2 _ rfl).2 rfl
  have hmarks (c : Char) (s : String) (u v : List Char) : (char c).text ++ u ≠ (str s).text ++ v := by
    obtain ⟨w, hw⟩ := text_char c
    obtain ⟨w', hw'⟩ := text_str s
    rw [hw, hw']
    exact nofun
  rcases L with _ | ⟨_ | _, t⟩ | c | s
  · rcases L' with _ | ⟨_ | _, t'⟩ | c' | s'
    · exact ⟨rfl, h⟩
    · exact absurd hstem.symm (hword hL').1
    · cases hstem
    · exact absurd h (hchar c' hr)
    · exact absurd h (hstr s' hr)
  · rcases L' with _ | ⟨_ | _, t'⟩ | c' | s'
    · exact absurd hstem (hword hL).1
    · obtain rfl : t = t' := String.toList_inj.1 hstem
      exact ⟨rfl, List.append_cancel_left h⟩
    · exact absurd hstem (hword hL).2
    · exact absurd hstem (hword hL).1
    · exact absurd hstem (hword hL).1
  · rcases L' with _ | ⟨_ | _, t'⟩ | c' | s'
    · cases hstem
    · exact absurd hstem.symm (hword hL').2
    · -- after the mark stand two words
      rw [text_mutable, text_mutable, List.append_assoc, List.append_assoc] at h
      have htail : t.toList ++ r = t'.toList ++ r' := (List.cons.inj (List.append_cancel_left h)).2
      have ht : t.toList = t'.toList := by rw [← hL.1 r hr.1, htail, hL'.1 r' hr'.1]
      rw [ht] at htail
      exact ⟨by rw [String.toList_inj.1 ht], List.append_cancel_left htail⟩
    · cases hstem
    · cases hstem
  · rcases L' with _ | ⟨_ | _, t'⟩ | c' | s'
    · exact absurd h.symm (hchar c hr')
    · exact absurd hstem.symm (hword hL').1
    · cases hstem
    · obtain ⟨rfl, htail⟩ := quotedChar_inj h
      exact ⟨rfl, htail⟩
    · exact absurd h (hmarks c s' r r')
  · rcases L' with _ | ⟨_ | _, t'⟩ | c' | s'
    · exact absurd h.symm (hstr s hr')
    · exact absurd hstem.symm (hword hL').1
    · cases hstem
    · exact absurd h.symm (hmarks c' s r' r)
    · obtain ⟨rfl, htail⟩ := quotedString_inj h
      exact ⟨rfl, htail⟩

end Lead

end RustFlow
