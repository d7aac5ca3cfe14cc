/-
# Patterns as text

The text of a pattern does not always show the pattern: parentheses are written around one thing
only, a mutable variable after `&`.  So `&(mut b | c)` has the text of `&mut b | c`
(`Scope.lowerPat_ambiguous`), a path of one name that of a variable, an alternative of one case that
of the case, and a variant at an end of a range that of a path.  `Pattern.isClear` excludes these,
and then two lowered patterns with one text have one outline (`Scope.lowerPat_unambiguous`).

An outline is a pattern without types and places, as the list of its cases.  A case starts with a
lead, goes on with the mark of its form and with its parts, and ends with what closes the form.
Each of these shows where it ends: a lead by its characters (`Lead.append_inj`), a part by what may
follow it (`EndsPart`), and a case by induction (`Outline.Legible.told`).
-/

import RustFlow.Lowering.Expr
import RustFlow.Proofs.Attempt
import RustFlow.Proofs.DecimalTexts
import RustFlow.Proofs.LiteralTexts

namespace RustFlow

open Text Attempt Ast

/-! ### Leaves -/

/-- Whether a text may be a path in a pattern: it starts like an identifier, goes on with
identifiers and colons, and is no reserved word. -/
def isPath (t : String) : Bool :=
  (t.toList.head?.any isIdentStart && t.toList.all fun d => isWordChar d || d == ':') &&
    !(["_", "mut", "true", "false"].contains t)

/-- Whether a text may be a name in a pattern. -/
def isName (t : String) : Bool := isPath t && !t.toList.contains ':'

/-- Whether a text starts as a number does. -/
def startsNumber (w : List Char) : Bool := w.head?.any fun c => c.isDigit || c == '-'

/-- Whether a text is a number, but no integer. -/
def isDecimal (w : List Char) : Bool := startsNumber w && !w.all Char.isDigit && isSolid w

/-- A leaf of a pattern, or an end of a range. -/
inductive Leaf where
  | binding (v : Variable)
  | path (p : String)
  | wildcard
  | unitStruct (name : String)
  | variant (enumName variant : String)
  | literal (l : Literal)

namespace Leaf

/-- How a leaf is written. -/
def lead : Leaf → Lead
  | binding v => .word v.mutable v.name
  | path p => .word false p
  | wildcard => .word false "_"
  | unitStruct name => .word false (name ++ "\x7b\x7d")
  | variant e v => .word false (e ++ "::" ++ v)
  | literal (.char c) => .char c
  | literal (.str s) => .str s
  | literal l => .word false l.render

/-- Whether a leaf is one that sources have. -/
def isWritten : Leaf → Bool
  | binding v => isName v.name
  | path p => isPath p
  | unitStruct name => isName name
  | literal .unit => false
  | _ => true

/-- Whether the text of a leaf shows what it is.  A path of one name reads as a variable, and so
does the positive infinity; the literal of a variant reads as a path. -/
def isClear : Leaf → Bool
  | path p => p.toList.contains ':'
  | variant _ _ => false
  | literal (.float x) => isDecimal x.render.toList
  | _ => true

/-- Whether a leaf is a mutable variable. -/
def isMutable : Leaf → Bool
  | binding v => v.mutable
  | _ => false

/-- Leaves that are told by their text. -/
def IsLegible (l : Leaf) : Prop := l.isWritten = true ∧ l.isClear = true

end Leaf

theorem not_isDigit_of_isIdentStart {c : Char} (hc : isIdentStart c = true) :
    c.isDigit = false := by
  by_contra h
  rw [Bool.not_eq_false] at h
  simp only [Char.isDigit, Bool.and_eq_true, decide_eq_true_eq, ge_iff_le,
    UInt32.le_iff_toNat_le] at h
  have hascii : c.toNat < 0x80 := Nat.lt_of_le_of_lt h.2 (by decide)
  rw [isIdentStart, if_pos hascii] at hc
  delta Char.isAlpha Char.isUpper Char.isLower at hc
  simp [UInt32.le_iff_toNat_le] at hc h
  rcases hc with (hc | hc) | rfl
  · omega
  · omega
  · exact absurd h (by decide)

theorem isPath_spec {t : String} (h : isPath t = true) :
    (∀ d ∈ t.toList, isWordChar d = true ∨ d = ':') ∧ startsNumber t.toList = false ∧
      t ∉ ["", "_", "mut", "true", "false"] := by
  simp only [isPath, Bool.and_eq_true, List.all_eq_true, Bool.or_eq_true, beq_iff_eq,
    Bool.not_eq_true', List.contains_eq_mem, decide_eq_false_iff_not] at h
  obtain ⟨⟨hhead, hall⟩, hne⟩ := h
  refine ⟨hall, ?_, ?_⟩
  · cases ht : t.toList with
    | nil => rfl
    | cons c cs =>
      rw [ht] at hhead
      have hminus : c ≠ '-' := by
        rintro rfl
        exact absurd (show isIdentStart '-' = true from hhead) (by decide)
      simp [startsNumber, not_isDigit_of_isIdentStart hhead, hminus]
  · rw [List.mem_cons, not_or]
    refine ⟨?_, hne⟩
    rintro rfl
    exact absurd hhead (by decide)

theorem isLegible_of_isPath {t : String} (h : isPath t = true) (mutable : Bool) :
    (Lead.word mutable t).IsLegible := by
  obtain ⟨hall, -, hne⟩ := isPath_spec h
  refine ⟨solid_of_all fun d hd => ?_, fun heq => hne (by simp [heq]),
    fun heq => hne (by simp [heq])⟩
  rcases hall d hd with hword | rfl
  · exact isStemChar_of_isWordChar hword
  · decide

theorem isName_spec {t : String} (h : isName t = true) : isPath t = true ∧ ':' ∉ t.toList := by
  simpa [isName] using h

namespace Leaf

variable {l l' : Leaf}

/-- The leaf that a lead reads as. -/
def ofLead : Lead → Leaf
  | .blank => wildcard
  | .char c => literal (.char c)
  | .str s => literal (.str s)
  | .word true t => binding ⟨t, true⟩
  | .word false t =>
    if startsNumber t.toList then
      literal (if t.toList.all Char.isDigit then .int (Nat.ofDigitChars 10 t.toList 0)
        else .float ((Binary64.parse? t).getD .nan))
    else if t = "true" ∨ t = "false" then literal (.bool (t = "true"))
    else if t = "_" then wildcard
    else if ':' ∈ t.toList then path t
    else if '\x7b' ∈ t.toList then unitStruct (String.ofList t.toList.dropLast.dropLast)
    else binding ⟨t, false⟩

theorem all_isDigit_int (n : Nat) : (toString n).toList.all Char.isDigit = true := by
  rw [toList_toString]
  exact List.all_eq_true.2 fun c => isDigit_of_mem_toDigits

theorem startsNumber_int (n : Nat) : startsNumber (toString n).toList = true := by
  obtain ⟨c, cs, hcons⟩ := List.exists_cons_of_ne_nil (@Nat.toDigits_ne_nil n 10)
  have hc : c.isDigit = true := isDigit_of_mem_toDigits (n := n) (hcons ▸ List.mem_cons_self)
  rw [toList_toString, hcons]
  simp [startsNumber, hc]

theorem unitStruct_spec {n : String} (h : isName n = true) :
    (∀ d ∈ (n ++ "\x7b\x7d").toList, isStemChar d = true ∧ d ≠ '.') ∧
      startsNumber (n ++ "\x7b\x7d").toList = false ∧ ':' ∉ (n ++ "\x7b\x7d").toList ∧
      '\x7b' ∈ (n ++ "\x7b\x7d").toList := by
  obtain ⟨hpath, hcolon⟩ := isName_spec h
  obtain ⟨hall, hstart, hne⟩ := isPath_spec hpath
  have hbraces : ∀ d ∈ ['\x7b', '\x7d'], isStemChar d = true ∧ d ≠ '.' :=
    forall_mem_of_all (by decide)
  rw [String.toList_append]
  refine ⟨fun d hd => ?_, ?_, by simp [hcolon], by simp⟩
  · rcases List.mem_append.1 hd with hd | hd
    · rcases hall d hd with hword | rfl
      · exact isStemChar_of_isWordChar hword
      · exact absurd hd hcolon
    · exact hbraces d (by simpa using hd)
  · cases ht : n.toList with
    | nil => exact absurd (by simp [String.toList_eq_nil_iff.1 ht]) hne
    | cons c cs => simpa [startsNumber, ht] using hstart

theorem lead_ne_blank (l : Leaf) : l.lead ≠ .blank := by
  rcases l with _ | _ | _ | _ | _ | (_ | _ | _ | _ | _ | _) <;> exact nofun

theorem lead_ne_mutable (h : l.isMutable = false) (t : String) : l.lead ≠ .word true t := by
  rintro heq
  rcases l with ⟨_, _⟩ | _ | _ | _ | _ | (_ | _ | _ | _ | _ | _) <;> cases heq
  cases h

theorem isLegible_lead (h : l.IsLegible) : l.lead.IsLegible := by
  obtain ⟨hw, hc⟩ := h
  have hnumber {t : String} (hs : Solid t.toList) (ht : startsNumber t.toList = true) :
      (Lead.word false t).IsLegible := by
    refine ⟨hs, ?_, ?_⟩ <;>
    · rintro rfl
      exact absurd ht (by decide)
  cases l with
  | binding v => exact isLegible_of_isPath (isName_spec hw).1 _
  | path p => exact isLegible_of_isPath hw _
  | wildcard => exact ⟨solid_of_all (forall_mem_of_all (by decide)), by decide, by decide⟩
  | unitStruct n =>
    obtain ⟨hall, -, -, hbrace⟩ := unitStruct_spec hw
    refine ⟨solid_of_all hall, ?_, ?_⟩ <;> intro h <;> rw [h] at hbrace <;>
      exact absurd hbrace (by decide)
  | variant => cases hc
  | literal x =>
    cases x with
    | int n =>
      refine hnumber (solid_of_all fun c hc => isStemChar_of_isWordChar (isWordChar_of_isDigit ?_))
        (startsNumber_int n)
      exact List.all_eq_true.1 (all_isDigit_int n) c hc
    | float x =>
      simp only [isClear, isDecimal, Bool.and_eq_true] at hc
      exact hnumber (solid_of_isSolid hc.2) hc.1.1
    | bool b =>
      cases b <;> exact ⟨solid_of_all (forall_mem_of_all (by decide)), by decide, by decide⟩
    | char | str => trivial
    | unit => cases hw

/-- **A leaf is told by its text.** -/
theorem ofLead_lead (h : l.IsLegible) : ofLead l.lead = l := by
  obtain ⟨hw, hc⟩ := h
  have hpath {t : String} (ht : isPath t = true) : ofLead (.word false t) =
      if ':' ∈ t.toList then path t
      else if '\x7b' ∈ t.toList then unitStruct (String.ofList t.toList.dropLast.dropLast)
      else binding ⟨t, false⟩ := by
    obtain ⟨-, hstart, hne⟩ := isPath_spec ht
    simp only [List.mem_cons, List.not_mem_nil, or_false, not_or] at hne
    simp [ofLead, hstart, hne]
  cases l with
  | binding v =>
    obtain ⟨hp, hcolon⟩ := isName_spec hw
    have hbrace : '\x7b' ∉ v.name.toList := fun hmem => by
      rcases (isPath_spec hp).1 _ hmem with h | h <;> exact absurd h (by decide)
    obtain ⟨n, _ | _⟩ := v
    · exact (hpath hp).trans (by simp [hcolon, hbrace])
    · rfl
  | path p =>
    have hcolon : ':' ∈ p.toList := by simpa [isClear] using hc
    exact (hpath hw).trans (if_pos hcolon)
  | wildcard => rfl
  | unitStruct n =>
    obtain ⟨-, hstart, hcolon, hbrace⟩ := unitStruct_spec hw
    have hne : ∀ w ∈ ["true", "false", "_"], n ++ "\x7b\x7d" ≠ w := by
      intro w hw heq
      have hall : ∀ w ∈ ["true", "false", "_"], '\x7b' ∉ w.toList := by decide
      exact hall w hw (heq ▸ hbrace)
    simp only [List.forall_mem_cons] at hne
    simp only [lead, ofLead, hstart, hne, hcolon, hbrace, if_true, if_false, or_self,
      Bool.false_eq_true]
    simp
  | variant => cases hc
  | literal x =>
    cases x with
    | int n =>
      simp only [lead, ofLead, Literal.render, startsNumber_int, all_isDigit_int, if_true]
      rw [toList_toString, Nat.ofDigitChars_ten_toDigits]
    | float x =>
      simp only [isClear, isDecimal, Bool.and_eq_true, Bool.not_eq_true'] at hc
      simp only [lead, ofLead, Literal.render, hc, if_true, Binary64.parse?_render]
      rfl
    | bool b => cases b <;> rfl
    | char | str => rfl
    | unit => cases hw

theorem eq_of_lead (h : l.IsLegible) (h' : l'.IsLegible) (heq : l.lead = l'.lead) : l = l' := by
  rw [← ofLead_lead h, heq, ofLead_lead h']

end Leaf

/-! ### Outlines -/

/-- The form of a case, apart from the patterns in it. -/
inductive Form where
  | leaf (l : Leaf)
  | reference (mutable : Bool)
  | tuple
  /-- A case in parentheses. -/
  | paren
  | arguments (path : String)
  | fields (path : String)
  | range (start stop : Option Leaf) (inclusive : Bool)

mutual

/-- A case of a pattern without types and places. -/
inductive Outline where
  | node (form : Form) (parts : List Piece)

/-- A part of a case: the name of a field, if it is one, and the cases of the pattern. -/
inductive Piece where
  | mk (label : Option String) (cases : List Outline)

end

def Piece.cases : Piece → List Outline
  | mk _ cases => cases

def Outline.leaf (l : Leaf) : Outline := .node (.leaf l) []

/-- The points that stand for elements or fields left out. -/
def Outline.points : Outline := .node (.range none none false) []

namespace Term

/-- The leaf that a literal or an end of a range is. -/
def leaf : Term → Leaf
  | mk (.var v) _ _ => .binding v
  | mk (.path p) _ _ => .path p
  | mk (.structLit name _) _ _ => .unitStruct name
  | mk (.enumLit name variant _ _) _ _ => .variant name variant
  | mk (.literal l) _ _ => .literal l
  | _ => .wildcard

end Term

namespace Pattern

/-- Cases as they stand after a reference mark: a mutable variable is put in parentheses. -/
def marked (mutable : Bool) (p : Pattern) (cases : List Outline) : List Outline :=
  match mutable, p with
  | false, binding ⟨_, true⟩ => [.node .paren [.mk none cases]]
  | _, _ => cases

mutual

/-- The cases of a pattern without types and places.  The cases of an alternative inside another
one are cases of the outer one. -/
def outline : Pattern → List Outline
  | binding v => [.leaf (.binding v)]
  | reference mutable p => [.node (.reference mutable) [.mk none (marked mutable p p.outline)]]
  | struct name _ fields more =>
    [.node (.fields name) (outlineFields fields ++ if more then [.mk none [.points]] else [])]
  | tupleStruct name ps => [.node (.arguments name) (outlineAll ps)]
  | path p => [.leaf (.path p)]
  | tuple ps => [.node .tuple (outlineAll ps)]
  | literal t => [.leaf t.leaf]
  | range a b inclusive => [.node (.range (a.map Term.leaf) (b.map Term.leaf) inclusive) []]
  | alternatives ps => outlineCases ps
  | rest => [.points]
  | wildcard => [.leaf .wildcard]

def outlineAll : List Pattern → List Piece
  | [] => []
  | p :: ps => .mk none p.outline :: outlineAll ps

def outlineCases : List Pattern → List Outline
  | [] => []
  | p :: ps => p.outline ++ outlineCases ps

def outlineFields : List FieldPattern → List Piece
  | [] => []
  | .mk name p :: fields => .mk (some name) p.outline :: outlineFields fields

end

/-- Whether a reference mark before the text of a pattern belongs to all of it.  Before an
alternative it belongs to the first case, and before a range that starts with a mutable variable
it reads as `&mut`. -/
def bearsMark (mutable : Bool) : Pattern → Bool
  | alternatives _ => false
  | literal t | range (some t) _ _ => mutable || !t.leaf.isMutable
  | _ => true

mutual

/-- Whether the text of a pattern shows what it is.  A path of one name reads as a variable, an
alternative of one case as that case, and a reference to an alternative as an alternative. -/
def isClear : Pattern → Bool
  | reference mutable p => p.isClear && p.bearsMark mutable
  | struct _ _ fields _ => clearFields fields
  | tupleStruct _ ps | tuple ps => clearAll ps
  | path p => (Leaf.path p).isClear
  | literal t => t.leaf.isClear
  | range a b _ => a.all (·.leaf.isClear) && b.all (·.leaf.isClear)
  | alternatives ps => decide (2 ≤ ps.length) && clearAll ps
  | binding _ | rest | wildcard => true

def clearAll : List Pattern → Bool
  | [] => true
  | p :: ps => p.isClear && clearAll ps

def clearFields : List FieldPattern → Bool
  | [] => true
  | .mk _ p :: fields => p.isClear && clearFields fields

end

end Pattern

/-! ### Patterns as written -/

namespace Ast

/-- Whether the segments of a path are names. -/
def Path.isWritten (p : Path) : Bool := p.segments.all fun s => isName s.name

/-- Whether the parts of an end of a range are as written. -/
def Bound.isWritten : Bound → Bool
  | path p => p.isWritten
  | literal _ _ | constBlock _ => true

mutual

/-- Whether the parts of a pattern are as the grammar has them: names are identifiers, fields are
words, and a range has an end. -/
def Pat.isWritten : Pat → Bool
  | .binding _ name _ => isName name
  | .reference _ _ p | .paren _ p => p.isWritten
  | .struct _ path fields _ => path.isWritten && writtenFields fields
  | .tupleStruct _ path ps => path.isWritten && writtenAll ps
  | .path _ path => path.isWritten
  | .tuple _ ps | .alternatives _ ps => writtenAll ps
  | .range _ a b _ => (a.isSome || b.isSome) && a.all Bound.isWritten && b.all Bound.isWritten
  | .literal _ _ | .rest _ | .wild _ | .other _ _ => true

def writtenAll : List Pat → Bool
  | [] => true
  | p :: ps => p.isWritten && writtenAll ps

def writtenFields : List FieldPat → Bool
  | [] => true
  | .mk name p :: fields => name.toList.all isWordChar && p.isWritten && writtenFields fields

end

end Ast

/-! ### Texts -/

/-- Texts with a bar between each two. -/
abbrev barred (texts : List (List Char)) : List Char := [' ', '|', ' '].intercalate texts

/-- Texts with a comma between each two. -/
abbrev listed (texts : List (List Char)) : List Char := [',', ' '].intercalate texts

/-- The lead of an end of a range. -/
def boundLead (b : Option Leaf) : Lead := (b.map Leaf.lead).getD .blank

namespace Form

/-- What the text of a case starts with. -/
def lead : Form → Lead
  | leaf l => l.lead
  | arguments name | fields name => .word false name
  | range a _ _ => boundLead a
  | _ => .blank

/-- What stands between the lead of a case and its parts. -/
def mark : Form → List Char
  | leaf _ => []
  | reference mutable => '&' :: if mutable then ['m', 'u', 't', ' '] else []
  | tuple | paren | arguments _ => ['(']
  | fields _ => [' ', '\x7b', ' ']
  | range _ _ inclusive => ['.', '.'] ++ if inclusive then ['='] else []

/-- What stands after the parts of a case. -/
def closing (count : Nat) : Form → List Char
  | leaf _ | reference _ => []
  | paren | arguments _ => [')']
  | tuple => (if count = 1 then [','] else []) ++ [')']
  | fields _ => [' ', '\x7d']
  | range _ b _ => (boundLead b).text

end Form

mutual

def Outline.text : Outline → List Char
  | .node f parts => f.lead.text ++ (f.mark ++
      (listed (parts.map fun p => p.text) ++ f.closing parts.length))

def Piece.text : Piece → List Char
  | .mk label cases => (label.elim [] fun n => n.toList ++ [':', ' ']) ++
      barred (cases.map fun c => c.text)

end

/-! ### Legible outlines -/

namespace Form

def kind : Form → Nat
  | leaf _ => 0
  | reference _ => 1
  | tuple | paren | arguments _ => 2
  | range _ _ _ => 3
  | fields _ => 4

/-- Forms that are told by their text. -/
def IsLegible : Form → Prop
  | leaf l => l.IsLegible
  | arguments name | fields name => isPath name = true
  | range a b _ => (∀ l ∈ a, l.IsLegible) ∧ ∀ l ∈ b, l.IsLegible
  | _ => True

end Form

def Outline.lead : Outline → Lead
  | node f _ => f.lead

/-- The parts of braces have a label, which is a word, or are points; other parts have none. -/
def Piece.Fits (labelled : Bool) : Piece → Prop
  | mk none cases => labelled = true → cases = [.points]
  | mk (some n) _ => labelled = true ∧ ∀ c ∈ n.toList, isWordChar c = true

/-- The parts that a form may have. -/
def Form.Fits (parts : List Piece) : Form → Prop
  | leaf _ | range _ _ _ => parts = []
  | reference mutable =>
    ∃ c, parts = [.mk none [c]] ∧ (mutable = false → ∀ t, c.lead ≠ .word true t)
  | paren => ∃ p, parts = [p] ∧ p.Fits false
  | f => ∀ p ∈ parts, p.Fits (f.kind == 4)

/-- Cases that are told by their text. -/
inductive Outline.Legible : Outline → Prop where
  | node {f : Form} {parts : List Piece} (hform : f.IsLegible) (hfits : f.Fits parts)
    (hne : ∀ p ∈ parts, p.cases ≠ []) (hcases : ∀ p ∈ parts, ∀ c ∈ p.cases, Legible c) :
    Legible (.node f parts)

/-- Parts that are told by their text. -/
structure Piece.Legible (labelled : Bool) (p : Piece) : Prop where
  fits : p.Fits labelled
  ne_nil : p.cases ≠ []
  cases : ∀ c ∈ p.cases, c.Legible

/-- What may follow a case: nothing, a blank before a bar or a brace, or a comma or parenthesis. -/
def EndsCase (r : List Char) : Prop :=
  (∀ c ∈ r.head?, c ∈ [' ', ',', ')']) ∧ ∀ u, r ≠ ' ' :: '\x7b' :: u

/-- What may follow a part: what may follow a case, but no bar. -/
def EndsPart (r : List Char) : Prop := EndsCase r ∧ ∀ u, r ≠ ' ' :: '|' :: u

/-- What may follow all parts: what may follow a part, but no comma and blank. -/
def EndsParts (r : List Char) : Prop := EndsPart r ∧ ∀ u, r ≠ ',' :: ' ' :: u

/-- The kind of form whose mark a text starts with. -/
def markKind : List Char → Nat
  | '&' :: _ => 1
  | '(' :: _ => 2
  | '.' :: _ => 3
  | ' ' :: '\x7b' :: _ => 4
  | _ => 0

theorem EndsCase.ends {r : List Char} (hr : EndsCase r) : Lead.Ends r := by
  have hall : ∀ c ∈ [' ', ',', ')'], isStemChar c = false ∧ c ≠ '\'' ∧ c ≠ '"' :=
    forall_mem_of_all (by decide)
  refine ⟨?_, fun c hc => (hall c (hr.1 c hc)).2⟩
  cases r with
  | nil => rfl
  | cons c r => exact stem_of_not (hall c (hr.1 c rfl)).1 r

theorem EndsCase.markKind {r : List Char} (hr : EndsCase r) : markKind r = 0 := by
  unfold RustFlow.markKind
  split
  · exact absurd (hr.1 _ rfl) (by decide)
  · exact absurd (hr.1 _ rfl) (by decide)
  · exact absurd (hr.1 _ rfl) (by decide)
  · exact absurd rfl (hr.2 _)
  · rfl

theorem endsPart_cons {c : Char} (hc : c = ',' ∨ c = ')') (u : List Char) : EndsPart (c :: u) := by
  refine ⟨⟨fun d hd => ?_, fun w hw => ?_⟩, fun w hw => ?_⟩
  · obtain rfl := Option.some.inj hd
    rcases hc with rfl | rfl <;> decide
  · rw [(List.cons.inj hw).1] at hc
    exact absurd hc (by decide)
  · rw [(List.cons.inj hw).1] at hc
    exact absurd hc (by decide)

theorem ends_of_not {c : Char} (hc : isStemChar c = false ∧ c ≠ '\'' ∧ c ≠ '"') (w : List Char) :
    Lead.Ends (c :: w) :=
  ⟨stem_of_not hc.1 w, fun _ hd => Option.some.inj hd ▸ hc.2⟩

theorem isLegible_boundLead {b : Option Leaf} (hb : ∀ l ∈ b, l.IsLegible) :
    (boundLead b).IsLegible := by
  cases b with
  | none => trivial
  | some l => exact Leaf.isLegible_lead (hb l rfl)

theorem eq_of_boundLead {b b' : Option Leaf} (hb : ∀ l ∈ b, l.IsLegible)
    (hb' : ∀ l ∈ b', l.IsLegible) (h : boundLead b = boundLead b') : b = b' := by
  cases b with
  | none =>
    cases b' with
    | none => rfl
    | some l => exact absurd h.symm l.lead_ne_blank
  | some l =>
    cases b' with
    | none => exact absurd h l.lead_ne_blank
    | some l' => rw [Leaf.eq_of_lead (hb l rfl) (hb' l' rfl) h]

namespace Form

variable {f : Form} {parts : List Piece} {r : List Char}

theorem isLegible_lead (h : f.IsLegible) : f.lead.IsLegible := by
  cases f with
  | leaf => exact Leaf.isLegible_lead h
  | arguments | fields => exact isLegible_of_isPath h _
  | range => exact isLegible_boundLead h.1
  | reference | tuple | paren => trivial

/-- What follows the lead of a case. -/
def tail (f : Form) (parts : List Piece) : List Char :=
  f.mark ++ (listed (parts.map fun p => p.text) ++ f.closing parts.length)

theorem endsParts_closing (h : f.kind = 2 ∨ f.kind = 4) (n : Nat) (u : List Char) :
    EndsParts (f.closing n ++ u) := by
  cases f with
  | tuple =>
    by_cases hn : n = 1
    · simp only [closing, if_pos hn]
      exact ⟨endsPart_cons (.inl rfl) _, fun w hw => by cases hw⟩
    · simp only [closing, if_neg hn]
      exact ⟨endsPart_cons (.inr rfl) _, fun w hw => by cases hw⟩
  | paren | arguments => exact ⟨endsPart_cons (.inr rfl) _, fun w hw => by cases hw⟩
  | fields =>
    have hblank : ∀ c ∈ ([' ', '\x7d'] ++ u).head?, c ∈ [' ', ',', ')'] := fun c hc =>
      Option.some.inj hc ▸ by decide
    exact ⟨⟨⟨hblank, fun w hw => by cases hw⟩, fun w hw => by cases hw⟩, fun w hw => by cases hw⟩
  | leaf | reference | range => exact absurd h (by simp [kind])

theorem markKind_tail (h : f.Fits parts) (hr : EndsCase r) :
    markKind (f.tail parts ++ r) = f.kind := by
  cases f with
  | leaf =>
    obtain rfl := h
    exact hr.markKind
  | _ => rfl

theorem ends_tail (h : f.Fits parts) (hr : EndsCase r) : Lead.Ends (f.tail parts ++ r) := by
  cases f with
  | leaf =>
    obtain rfl := h
    exact hr.ends
  | range => exact ⟨by simp [tail, mark, stem], fun _ hd => Option.some.inj hd ▸ by decide⟩
  | reference | tuple | paren | arguments | fields => exact ends_of_not (by decide) _

end Form

/-! ### Telling cases apart -/

variable {x y : Outline} {ps qs : List Piece} {r r' : List Char}

/-- A case that can be told from every other one, before whatever may follow. -/
def Told (x : Outline) : Prop :=
  ∀ y r r', y.Legible → EndsCase r → EndsCase r' → x.text ++ r = y.text ++ r' → x = y ∧ r = r'

namespace Outline

theorem text_node (f : Form) (parts : List Piece) :
    (node f parts).text = f.lead.text ++ f.tail parts := by
  rw [text, Form.tail]

theorem text_points : points.text = ['.', '.'] := by
  simp [points, text_node, Form.lead, Form.tail, Form.mark, Form.closing, boundLead, Lead.text]

theorem Legible.text_ne (hx : x.Legible) (hr : EndsCase r) (u : List Char) : x.text ++ u ≠ r := by
  rintro rfl
  have hall : ∀ c ∈ [' ', ',', ')'], c ∈ [' ', ',', '(', ')', '&', '='] :=
    forall_mem_of_all (by decide)
  cases hx with
  | @node f parts hform =>
    rw [text_node, List.append_assoc] at hr
    rcases (Form.isLegible_lead hform).head with hblank | ⟨c, cs, hcons, hc⟩
    · rw [hblank] at hr
      have hkind : markKind (f.tail parts ++ u) = 0 := hr.markKind
      cases f with
      | leaf l => exact l.lead_ne_blank hblank
      | _ => cases hkind
    · rw [hcons] at hr
      exact hc (hall c (hr.1 c rfl))

/-- A case that does not start with a mutable variable does not start with `mut`. -/
theorem Legible.not_mut (hx : x.Legible) (hr : EndsCase r) (h : ∀ t, x.lead ≠ .word true t)
    (u : List Char) : x.text ++ r ≠ ['m', 'u', 't', ' '] ++ u := by
  intro heq
  cases hx with
  | @node f parts hform hfits =>
    have hstem := Lead.stem_text (Form.isLegible_lead hform) (Form.ends_tail hfits hr).1
    have hmut : stem (['m', 'u', 't', ' '] ++ u) = ['m', 'u', 't'] := by
      change stem (['m', 'u', 't'] ++ ' ' :: u) = _
      rw [stem_append (forall_mem_of_all (by decide)), stem_of_not (by decide)]
      rfl
    rw [← List.append_assoc, ← text_node, heq, hmut] at hstem
    have hlead := Form.isLegible_lead hform
    change ∀ t, f.lead ≠ _ at h
    generalize f.lead = L at hstem hlead h
    rcases L with _ | ⟨_ | _, t⟩ | _ | _
    · cases hstem
    · exact hlead.2.2 (String.toList_inj.1 (hstem.symm.trans (by simp)))
    · exact h t rfl
    · cases hstem
    · cases hstem

end Outline

theorem cases_inj {xs ys : List Outline} (hxs : ∀ x ∈ xs, x.Legible) (hys : ∀ y ∈ ys, y.Legible)
    (htold : ∀ x ∈ xs, Told x) (hr : EndsPart r) (hr' : EndsPart r')
    (h : barred (xs.map fun x => x.text) ++ r = barred (ys.map fun y => y.text) ++ r') :
    xs = ys ∧ r = r' := by
  refine intercalate_inj (F := EndsCase) (fun x hx y hy u u' => htold x hx y u u' (hys y hy))
    (fun u => ⟨fun c hc => ?_, fun w hw => by cases hw⟩) hr.1 hr'.1 (fun _ => hr.2 _)
    (fun _ => hr'.2 _) (fun x hx => (hxs x hx).text_ne hr'.1)
    (fun y hy => (hys y hy).text_ne hr.1) h
  obtain rfl := Option.some.inj hc
  decide

namespace Piece

variable {labelled : Bool} {p q : Piece} {n : String} {xs : List Outline}

theorem text_none (xs : List Outline) : (mk none xs).text = barred (xs.map fun x => x.text) := by
  rw [text]
  rfl

theorem text_some (n : String) (xs : List Outline) : (Piece.mk (some n) xs).text =
    n.toList ++ ([':', ' '] ++ barred (xs.map fun x => x.text)) := by
  rw [text]
  exact List.append_assoc _ _ _

theorem Legible.head_label (h : (Piece.mk (some n) xs).Legible labelled) (u : List Char) :
    ∃ c w, (Piece.mk (some n) xs).text ++ u = c :: w ∧ (isWordChar c = true ∨ c = ':') := by
  rw [text_some]
  cases hn : n.toList with
  | nil => exact ⟨':', _, rfl, .inr rfl⟩
  | cons c cs => exact ⟨c, _, rfl, .inl (h.fits.2 c (hn ▸ List.mem_cons_self))⟩

theorem Legible.text_ne (h : p.Legible labelled) (hr : EndsCase r) (u : List Char) :
    p.text ++ u ≠ r := by
  rintro rfl
  obtain ⟨_ | n, xs⟩ := p
  · obtain ⟨x, xs, rfl⟩ := List.exists_cons_of_ne_nil h.ne_nil
    rw [text_none, List.map_cons, intercalate_cons] at hr
    exact (h.cases x List.mem_cons_self).text_ne hr _ rfl
  · obtain ⟨c, w, hcons, hc⟩ := h.head_label u
    have hall : ∀ d ∈ [' ', ',', ')'], ¬(isWordChar d = true ∨ d = ':') :=
      forall_mem_of_all (by decide)
    rw [hcons] at hr
    exact hall c (hr.1 c rfl) hc

theorem Legible.text_ne_points (h : (Piece.mk (some n) xs).Legible labelled) (u : List Char) :
    (Piece.mk none [.points]).text ++ r ≠ (Piece.mk (some n) xs).text ++ u := by
  intro heq
  obtain ⟨c, w, hcons, hc⟩ := h.head_label u
  rw [hcons, text_none] at heq
  simp only [List.map_cons, List.map_nil, List.intercalate_singleton, Outline.text_points] at heq
  rw [← (List.cons.inj heq).1] at hc
  exact absurd hc (by decide)

theorem Legible.append_inj (hp : p.Legible labelled) (hq : q.Legible labelled)
    (htold : ∀ x ∈ p.cases, Told x) (hr : EndsPart r) (hr' : EndsPart r')
    (h : p.text ++ r = q.text ++ r') : p = q ∧ r = r' := by
  obtain ⟨_ | n, xs⟩ := p <;> obtain ⟨_ | m, ys⟩ := q
  · rw [text_none, text_none] at h
    obtain ⟨hxs, hrest⟩ := cases_inj hp.cases hq.cases htold hr hr' h
    exact ⟨congrArg _ hxs, hrest⟩
  · obtain rfl : xs = [.points] := hp.fits hq.fits.1
    exact absurd h (hq.text_ne_points _)
  · obtain rfl : ys = [.points] := hq.fits hp.fits.1
    exact absurd h.symm (hp.text_ne_points _)
  · have hcolon : ∀ u, ∀ c ∈ ([':', ' '] ++ u).head?, isWordChar c = false := by
      intro u c hc
      obtain rfl := Option.some.inj hc
      decide
    rw [text_some, text_some, List.append_assoc, List.append_assoc, List.append_assoc,
      List.append_assoc] at h
    obtain ⟨hlabel, htail⟩ := append_inj_of_all hp.fits.2 hq.fits.2 (hcolon _) (hcolon _) h
    obtain ⟨hxs, hrest⟩ := cases_inj hp.cases hq.cases htold hr hr' (List.append_cancel_left htail)
    obtain rfl : xs = ys := hxs
    exact ⟨by rw [String.toList_inj.1 hlabel], hrest⟩

end Piece

theorem parts_inj {labelled : Bool} (hps : ∀ p ∈ ps, p.Legible labelled)
    (hqs : ∀ q ∈ qs, q.Legible labelled) (htold : ∀ p ∈ ps, ∀ x ∈ p.cases, Told x)
    (hr : EndsParts r) (hr' : EndsParts r')
    (h : listed (ps.map fun p => p.text) ++ r = listed (qs.map fun q => q.text) ++ r') :
    ps = qs ∧ r = r' :=
  intercalate_inj (F := EndsPart)
    (fun p hp q hq _ _ hu hu' => (hps p hp).append_inj (hqs q hq) (htold p hp) hu hu')
    (fun _ => endsPart_cons (.inl rfl) _) hr.1 hr'.1 (fun _ => hr.2 _) (fun _ => hr'.2 _)
    (fun p hp => (hps p hp).text_ne hr'.1.1) (fun q hq => (hqs q hq).text_ne hr.1.1) h

theorem stop_inj {b b' : Option Leaf} {inclusive inclusive' : Bool} (hb : ∀ l ∈ b, l.IsLegible)
    (hb' : ∀ l ∈ b', l.IsLegible) (hr : EndsCase r) (hr' : EndsCase r')
    (h : (if inclusive then ['='] else []) ++ ((boundLead b).text ++ r) =
      (if inclusive' then ['='] else []) ++ ((boundLead b').text ++ r')) :
    inclusive = inclusive' ∧ b = b' ∧ r = r' := by
  have hequals {b : Option Leaf} (hb : ∀ l ∈ b, l.IsLegible) {r : List Char} (hr : EndsCase r)
      (u : List Char) : (boundLead b).text ++ r ≠ '=' :: u := by
    rcases (isLegible_boundLead hb).head with hblank | ⟨c, cs, hcons, hc⟩
    · rw [hblank]
      rintro rfl
      exact absurd (hr.1 '=' rfl) (by decide)
    · rw [hcons]
      intro heq
      rw [(List.cons.inj heq).1] at hc
      exact hc (by decide)
  obtain rfl : inclusive = inclusive' := by
    cases inclusive <;> cases inclusive'
    · rfl
    · exact absurd h (hequals hb hr _)
    · exact absurd h.symm (hequals hb' hr' _)
    · rfl
  obtain ⟨hlead, hrest⟩ := Lead.append_inj (isLegible_boundLead hb) (isLegible_boundLead hb')
    hr.ends hr'.ends (List.append_cancel_left h)
  exact ⟨rfl, eq_of_boundLead hb hb' hlead, hrest⟩

namespace Outline

theorem legible_leaf {l : Leaf} (hl : l.IsLegible) : (leaf l).Legible := .node hl rfl nofun nofun

variable {f g : Form}

theorem Legible.ofParts {labelled : Bool} (hform : f.IsLegible) (hps : ∀ p ∈ ps, p.Legible labelled)
    (hfits : (∀ p ∈ ps, p.Fits labelled) → f.Fits ps) : (Outline.node f ps).Legible :=
  .node hform (hfits fun p hp => (hps p hp).fits) (fun p hp => (hps p hp).ne_nil)
    fun p hp => (hps p hp).cases

theorem Legible.parts (h : (Outline.node f ps).Legible) (hkind : f.kind = 2 ∨ f.kind = 4) :
    ∀ p ∈ ps, p.Legible (f.kind == 4) := by
  cases h with
  | node hform hfits hne hcases =>
    refine fun p hp => ⟨?_, hne p hp, hcases p hp⟩
    cases f with
    | tuple | arguments | fields => exact hfits p hp
    | paren =>
      obtain ⟨q, rfl, hq⟩ := hfits
      exact List.mem_singleton.1 hp ▸ hq
    | leaf | reference | range => exact absurd hkind (by simp [Form.kind])

/-- Two cases with one text have one lead, and forms of one kind. -/
theorem Legible.split (hx : (Outline.node f ps).Legible) (hy : (Outline.node g qs).Legible)
    (hr : EndsCase r) (hr' : EndsCase r')
    (h : (Outline.node f ps).text ++ r = (Outline.node g qs).text ++ r') :
    f.lead = g.lead ∧ f.tail ps ++ r = g.tail qs ++ r' ∧ f.kind = g.kind := by
  cases hx with
  | node hform hfits =>
    cases hy with
    | node hform' hfits' =>
      rw [text_node, text_node, List.append_assoc, List.append_assoc] at h
      obtain ⟨hlead, htail⟩ := Lead.append_inj (Form.isLegible_lead hform)
        (Form.isLegible_lead hform') (Form.ends_tail hfits hr) (Form.ends_tail hfits' hr') h
      refine ⟨hlead, htail, ?_⟩
      rw [← Form.markKind_tail hfits hr, htail, Form.markKind_tail hfits' hr']

theorem told_leaf {l : Leaf} (hl : l.IsLegible) : Told (leaf l) := by
  intro y r r' hy hr hr' h
  obtain ⟨g, qs⟩ := y
  obtain ⟨hlead, htail, hkind⟩ := (legible_leaf hl).split hy hr hr' h
  cases hy with
  | node hform' hfits' =>
    cases g with
    | leaf l' =>
      obtain rfl := hfits'
      rw [Leaf.eq_of_lead hl hform' hlead]
      exact ⟨rfl, htail⟩
    | _ => cases hkind

theorem Legible.parts_eq (hx : (Outline.node f ps).Legible) (hy : (Outline.node g qs).Legible)
    (hkind : f.kind = 2 ∨ f.kind = 4) (hkinds : f.kind = g.kind)
    (htold : ∀ p ∈ ps, ∀ c ∈ p.cases, Told c) (h : f.tail ps ++ r = g.tail qs ++ r') :
    ps = qs ∧ f.closing ps.length ++ r = g.closing qs.length ++ r' := by
  have hmark : f.mark = g.mark := by
    cases f <;> cases g <;> simp [Form.kind] at hkind hkinds <;> rfl
  have hqs := hy.parts (hkinds ▸ hkind)
  rw [← hkinds] at hqs
  rw [Form.tail, Form.tail, hmark] at h
  simp only [List.append_assoc] at h
  exact parts_inj (hx.parts hkind) hqs htold (Form.endsParts_closing hkind _ r)
    (Form.endsParts_closing (hkinds ▸ hkind) _ r') (List.append_cancel_left h)

theorem Legible.told_brackets (hx : (Outline.node f ps).Legible) (hkind : f.kind = 2 ∨ f.kind = 4)
    (htold : ∀ p ∈ ps, ∀ c ∈ p.cases, Told c) : Told (Outline.node f ps) := by
  intro y r r' hy hr hr' h
  obtain ⟨g, qs⟩ := y
  obtain ⟨hlead, htail, hkinds⟩ := hx.split hy hr hr' h
  obtain ⟨rfl, hrest⟩ := hx.parts_eq hy hkind hkinds htold htail
  have hone {f : Form} (hx : (Outline.node f ps).Legible) (hf : f = .paren) : ∃ p, ps = [p] := by
    subst hf
    cases hx with
    | node _ hfits =>
      obtain ⟨p, hp, -⟩ := hfits
      exact ⟨p, hp⟩
  cases f with
  | tuple =>
    cases g with
    | tuple => exact ⟨rfl, List.append_cancel_left hrest⟩
    | paren =>
      obtain ⟨p, rfl⟩ := hone hy rfl
      cases hrest
    | arguments => cases hlead
    | _ => cases hkinds
  | paren =>
    cases g with
    | tuple =>
      obtain ⟨p, rfl⟩ := hone hx rfl
      cases hrest
    | paren => exact ⟨rfl, List.append_cancel_left hrest⟩
    | arguments => cases hlead
    | _ => cases hkinds
  | arguments =>
    cases g with
    | arguments =>
      obtain ⟨-, rfl⟩ := Lead.word.inj hlead
      exact ⟨rfl, List.append_cancel_left hrest⟩
    | tuple | paren => cases hlead
    | _ => cases hkinds
  | fields =>
    cases g with
    | fields =>
      obtain ⟨-, rfl⟩ := Lead.word.inj hlead
      exact ⟨rfl, List.append_cancel_left hrest⟩
    | _ => cases hkinds
  | leaf | reference | range => exact absurd hkind (by simp [Form.kind])

theorem Legible.told_range {a b : Option Leaf} {inclusive : Bool}
    (hx : (Outline.node (.range a b inclusive) []).Legible) :
    Told (Outline.node (.range a b inclusive) []) := by
  intro y r r' hy hr hr' h
  obtain ⟨g, qs⟩ := y
  obtain ⟨hlead, htail, hkind⟩ := hx.split hy hr hr' h
  cases hx with
  | node hform =>
    cases hy with
    | node hform' hfits' =>
      cases g with
      | range a' b' inclusive' =>
        obtain rfl := hfits'
        obtain rfl := eq_of_boundLead hform.1 hform'.1 hlead
        rw [Form.tail, Form.tail, Form.mark, Form.mark] at htail
        simp only [List.append_assoc] at htail
        obtain ⟨rfl, rfl, hrest⟩ := stop_inj hform.2 hform'.2 hr hr' (List.append_cancel_left htail)
        exact ⟨rfl, hrest⟩
      | _ => cases hkind

theorem tail_reference (mutable : Bool) (c : Outline) :
    (Form.reference mutable).tail [.mk none [c]] =
      '&' :: ((if mutable then ['m', 'u', 't', ' '] else []) ++ c.text) := by
  simp [Form.tail, Form.mark, Form.closing, Piece.text_none]

theorem Legible.told_reference {mutable : Bool} {c : Outline}
    (hx : (Outline.node (.reference mutable) [.mk none [c]]).Legible) (htold : Told c) :
    Told (Outline.node (.reference mutable) [.mk none [c]]) := by
  intro y r r' hy hr hr' h
  obtain ⟨g, qs⟩ := y
  obtain ⟨-, htail, hkind⟩ := hx.split hy hr hr' h
  cases hx with
  | node hform hfits hne hcases =>
    have hc := hcases _ List.mem_cons_self c List.mem_cons_self
    have hmut : mutable = false → ∀ t, c.lead ≠ .word true t := by
      obtain ⟨_, ⟨⟩, hmut⟩ := hfits
      exact hmut
    cases hy with
    | node hform' hfits' hne' hcases' =>
      cases g with
      | reference mutable' =>
        obtain ⟨d, rfl, hmut'⟩ := hfits'
        have hd := hcases' _ List.mem_cons_self d List.mem_cons_self
        rw [tail_reference, tail_reference, List.cons_append, List.cons_append, List.append_assoc,
          List.append_assoc] at htail
        have hafter := (List.cons.inj htail).2
        obtain rfl : mutable = mutable' := by
          cases mutable <;> cases mutable'
          · rfl
          · exact absurd hafter (hc.not_mut hr (hmut rfl) _)
          · exact absurd hafter.symm (hd.not_mut hr' (hmut' rfl) _)
          · rfl
        obtain ⟨rfl, hrest⟩ := htold d r r' hd hr hr' (List.append_cancel_left hafter)
        exact ⟨rfl, hrest⟩
      | _ => cases hkind

/-- **A case can be told from every other one.** -/
theorem Legible.told (hx : x.Legible) : Told x := by
  induction hx with
  | @node f ps hform hfits hne hcases ih =>
    have hx := Legible.node hform hfits hne hcases
    cases f with
    | leaf l =>
      obtain rfl := hfits
      exact told_leaf hform
    | reference =>
      obtain ⟨c, rfl, hmut⟩ := hfits
      exact hx.told_reference (ih _ List.mem_cons_self c List.mem_cons_self)
    | tuple | paren | arguments => exact hx.told_brackets (.inl rfl) ih
    | fields => exact hx.told_brackets (.inr rfl) ih
    | range =>
      obtain rfl := hfits
      exact hx.told_range

end Outline

/-! ### Outlines of patterns -/

theorem barred_append {us vs : List (List Char)} (hu : us ≠ []) (hv : vs ≠ []) :
    barred (us ++ vs) = barred us ++ ([' ', '|', ' '] ++ barred vs) := by
  obtain ⟨v, vs, rfl⟩ := List.exists_cons_of_ne_nil hv
  induction us with
  | nil => exact absurd rfl hu
  | cons u us ih =>
    cases us with
    | nil => simp
    | cons u' us =>
      have := ih (List.cons_ne_nil u' us)
      simp only [barred, List.cons_append, List.intercalate_cons_cons, List.append_assoc] at this ⊢
      rw [this]

namespace Pattern

/-- The outline of a pattern has its text, and its cases are told by theirs. -/
structure Shown (p : Pattern) : Prop where
  ne_nil : p.outline ≠ []
  legible : ∀ c ∈ p.outline, c.Legible
  text : p.render.toList = barred (p.outline.map fun c => c.text)

theorem Shown.single {p : Pattern} {c : Outline} (hp : p.outline = [c]) (hc : c.Legible)
    (htext : p.render.toList = c.text) : Shown p := by
  refine ⟨by simp [hp], ?_, by simp [hp, htext]⟩
  rw [hp]
  exact fun d hd => List.mem_singleton.1 hd ▸ hc

theorem Shown.leaf {p : Pattern} {l : Leaf} (hp : p.outline = [.leaf l]) (hl : l.IsLegible)
    (htext : p.render.toList = l.lead.text) : Shown p := by
  refine .single hp (Outline.legible_leaf hl) (htext.trans ?_)
  simp [Outline.leaf, Outline.text_node, Form.tail, Form.mark, Form.closing, Form.lead]

/-- After a reference mark stands one case, which starts with no mutable variable unless the mark is
that of a mutable reference. -/
theorem exists_marked {p : Pattern} {mutable : Bool} (h : p.bearsMark mutable = true) :
    ∃ c, marked mutable p p.outline = [c] ∧ (mutable = false → ∀ t, c.lead ≠ .word true t) := by
  cases mutable with
  | true =>
    cases p with
    | alternatives => cases h
    | _ => exact ⟨_, rfl, nofun⟩
  | false =>
    have hleaf {l : Leaf} (hl : (false || !l.isMutable) = true) (t : String) :
        l.lead ≠ .word true t := Leaf.lead_ne_mutable (by simpa using hl) t
    cases p with
    | binding v => obtain ⟨_, _ | _⟩ := v <;> exact ⟨_, rfl, fun _ t ht => by cases ht⟩
    | literal t => exact ⟨_, rfl, fun _ => hleaf h⟩
    | range a =>
      cases a with
      | none => exact ⟨_, rfl, fun _ t ht => by cases ht⟩
      | some t => exact ⟨_, rfl, fun _ => hleaf h⟩
    | alternatives => cases h
    | _ => exact ⟨_, rfl, fun _ t ht => by cases ht⟩

theorem Shown.render_reference {p : Pattern} (h : Shown p) (mutable : Bool) :
    (Pattern.reference mutable p).render.toList =
      '&' :: ((if mutable then ['m', 'u', 't', ' '] else []) ++
        barred ((marked mutable p p.outline).map fun c => c.text)) := by
  have htext := h.text
  cases mutable with
  | true => simp [render, marked, htext]
  | false =>
    cases p with
    | binding v =>
      obtain ⟨n, _ | _⟩ := v
      · simp_all [render, marked]
      · simp [render, marked, outline, Outline.leaf, Outline.text_node, Form.tail, Form.mark,
          Form.closing, Form.lead, Leaf.lead, Lead.text, Piece.text_none]
    | _ => simp_all [render, marked]

theorem Shown.reference {p : Pattern} {mutable : Bool} (h : Shown p)
    (hmark : p.bearsMark mutable = true) : Shown (reference mutable p) := by
  obtain ⟨c, hcase, hlead⟩ := exists_marked hmark
  have hpart {cs : List Outline} (hcs : ∀ c ∈ cs, c.Legible) :
      ∀ q ∈ [Piece.mk none cs], ∀ c ∈ q.cases, c.Legible :=
    fun q hq => List.mem_singleton.1 hq ▸ hcs
  have hmarked : ∀ d ∈ marked mutable p p.outline, d.Legible := by
    unfold marked
    split
    · intro d hd
      obtain rfl := List.mem_singleton.1 hd
      exact .node trivial ⟨_, rfl, nofun⟩ (fun q hq => List.mem_singleton.1 hq ▸ h.ne_nil)
        (hpart h.legible)
    · exact h.legible
  rw [hcase] at hmarked
  refine .single (c := .node (.reference mutable) [.mk none [c]]) (by rw [outline, hcase])
    (.node trivial ⟨c, rfl, hlead⟩ (fun q hq => List.mem_singleton.1 hq ▸ List.cons_ne_nil c [])
      (hpart hmarked)) ?_
  rw [h.render_reference, hcase, Outline.text_node, Outline.tail_reference]
  simp [Form.lead, Lead.text]

theorem legible_points : Outline.points.Legible := .node ⟨nofun, nofun⟩ rfl nofun nofun

theorem toList_commaList (texts : List String) :
    (commaList texts).toList = listed (texts.map String.toList) := by
  rw [commaList, String.toList_intercalate]
  rfl

theorem shownAll {ps : List Pattern} (h : ∀ p ∈ ps, Shown p) :
    (∀ x ∈ outlineAll ps, x.Legible false) ∧
      (renderPatterns ps).map String.toList = (outlineAll ps).map fun x => x.text := by
  induction ps with
  | nil => exact ⟨nofun, rfl⟩
  | cons p ps ih =>
    obtain ⟨hp, hps⟩ := List.forall_mem_cons.1 h
    obtain ⟨hall, htext⟩ := ih hps
    refine ⟨List.forall_mem_cons.2 ⟨⟨nofun, hp.ne_nil, hp.legible⟩, hall⟩, ?_⟩
    rw [renderPatterns, List.map_cons, htext, hp.text, outlineAll, List.map_cons, Piece.text_none]

theorem shownFields {fields : List FieldPattern}
    (h : ∀ n p, .mk n p ∈ fields → (∀ c ∈ n.toList, isWordChar c = true) ∧ Shown p) :
    (∀ x ∈ outlineFields fields, x.Legible true) ∧
      (renderFields fields).map String.toList = (outlineFields fields).map fun x => x.text := by
  induction fields with
  | nil => exact ⟨nofun, rfl⟩
  | cons f fields ih =>
    obtain ⟨n, p⟩ := f
    obtain ⟨hn, hp⟩ := h n p List.mem_cons_self
    obtain ⟨hall, htext⟩ := ih fun m q hq => h m q (List.mem_cons_of_mem _ hq)
    refine ⟨List.forall_mem_cons.2 ⟨⟨⟨rfl, hn⟩, hp.ne_nil, hp.legible⟩, hall⟩, ?_⟩
    rw [renderFields, List.map_cons, htext, outlineFields, List.map_cons, Piece.text_some,
      ← hp.text]
    simp

theorem Shown.struct {name : String} {t : TypeId} {fields : List FieldPattern} {more : Bool}
    (hname : isPath name = true)
    (h : ∀ n p, .mk n p ∈ fields → (∀ c ∈ n.toList, isWordChar c = true) ∧ Shown p) :
    Shown (struct name t fields more) := by
  obtain ⟨hlegible, htext⟩ := shownFields h
  have hall : ∀ x ∈ outlineFields fields ++ if more then [Piece.mk none [.points]] else [],
      x.Legible true := by
    intro x hx
    rcases List.mem_append.1 hx with hx | hx
    · exact hlegible x hx
    · cases more with
      | false => cases hx
      | true =>
        obtain rfl := List.mem_singleton.1 hx
        exact ⟨fun _ => rfl, nofun, fun c hc => List.mem_singleton.1 hc ▸ legible_points⟩
  refine .single rfl (.ofParts hname hall id) ?_
  simp only [render, String.toList_append, toList_commaList, List.map_append, htext,
    Outline.text_node, Form.lead, Lead.text_word, Form.tail, Form.mark, Form.closing]
  cases more <;> simp [Piece.text_none, Outline.text_points]

theorem Shown.tupleStruct {name : String} {ps : List Pattern} (hname : isPath name = true)
    (h : ∀ p ∈ ps, Shown p) : Shown (tupleStruct name ps) := by
  obtain ⟨hall, htext⟩ := shownAll h
  refine .single rfl (.ofParts hname hall id) ?_
  simp [render, toList_commaList, htext, Outline.text_node, Form.lead, Lead.text_word, Form.tail,
    Form.mark, Form.closing]

theorem Shown.tuple {ps : List Pattern} (h : ∀ p ∈ ps, Shown p) : Shown (tuple ps) := by
  obtain ⟨hall, htext⟩ := shownAll h
  have hlength : (renderPatterns ps).length = (outlineAll ps).length := by
    simpa using congrArg List.length htext
  refine .single rfl (.ofParts trivial hall id) ?_
  simp only [render, tupleText, String.toList_append, toList_commaList, htext, hlength,
    Outline.text_node, Form.lead, Form.tail, Form.mark, Form.closing]
  split <;> simp [Lead.text]

theorem Shown.alternatives {ps : List Pattern} (h : ∀ p ∈ ps, Shown p) (hne : ps ≠ []) :
    Shown (alternatives ps) := by
  induction ps with
  | nil => exact absurd rfl hne
  | cons p ps ih =>
    obtain ⟨hp, hps⟩ := List.forall_mem_cons.1 h
    cases ps with
    | nil =>
      have houtline : (Pattern.alternatives [p]).outline = p.outline := List.append_nil _
      refine ⟨houtline ▸ hp.ne_nil, houtline ▸ hp.legible, ?_⟩
      rw [houtline, ← hp.text]
      simp [render, renderPatterns]
    | cons q ps =>
      have hrest := ih hps (List.cons_ne_nil q ps)
      have htext : (Pattern.alternatives (p :: q :: ps)).render.toList =
          p.render.toList ++
            ([' ', '|', ' '] ++ (Pattern.alternatives (q :: ps)).render.toList) := by
        simp [render, renderPatterns, String.toList_intercalate]
      refine ⟨List.append_ne_nil_of_left_ne_nil hp.ne_nil _, fun c hc =>
        (List.mem_append.1 hc).elim (hp.legible c) (hrest.legible c), ?_⟩
      rw [htext, hp.text, hrest.text, ← barred_append (by simpa using hp.ne_nil)
        (by simpa using hrest.ne_nil), ← List.map_append]
      rfl

end Pattern

/-! ### Lowered patterns -/

/-- Terms whose text shows what leaf they are. -/
def Term.IsShown (t : Term) : Prop := t.leaf.IsLegible ∧ t.render.toList = t.leaf.lead.text

theorem isPath_append {t u : String} (ht : isPath t = true) (hu : isPath u = true) :
    isPath (t ++ "::" ++ u) = true := by
  have hcolon : ':' ∈ (t ++ "::" ++ u).toList := by simp
  have hreserved : ∀ w ∈ ["_", "mut", "true", "false"], ':' ∉ w.toList := by decide
  simp only [isPath, Bool.and_eq_true, List.all_eq_true, Bool.not_eq_true', List.contains_eq_mem,
    decide_eq_false_iff_not] at ht hu ⊢
  refine ⟨⟨?_, ?_⟩, fun hmem => hreserved _ hmem hcolon⟩
  · obtain ⟨x, hx⟩ := Option.isSome_iff_exists.1 (Option.isSome_of_any ht.1.1)
    rw [String.toList_append, String.toList_append, List.append_assoc, List.head?_append, hx]
    rw [hx] at ht
    exact ht.1.1
  · simp only [String.toList_append, List.forall_mem_append]
    exact ⟨⟨ht.1.2, forall_mem_of_all (by decide)⟩, hu.1.2⟩

theorem isPath_joined {p : Ast.Path} (h : p.isWritten = true) : isPath p.joined = true := by
  have hjoin : ∀ names : List String, names ≠ [] → (∀ n ∈ names, isName n = true) →
      isPath ("::".intercalate names) = true := by
    intro names hne hnames
    induction names with
    | nil => exact absurd rfl hne
    | cons n names ih =>
      obtain ⟨hn, hnames⟩ := List.forall_mem_cons.1 hnames
      cases names with
      | nil => simpa using (isName_spec hn).1
      | cons m names =>
        rw [String.intercalate_cons_cons]
        exact isPath_append (isName_spec hn).1 (ih (List.cons_ne_nil m names) hnames)
  exact hjoin _ (by simp [Ast.Path.segments]) (by simpa [Ast.Path.isWritten] using h)

namespace Scope

variable {s : Scope} {c c' : Context}

theorem lowerLit_shown {pos : Position} {lit : Lit} {t : Term}
    (h : s.lowerLit pos lit c = (.ok t, c')) (hclear : t.leaf.isClear = true) : t.IsShown := by
  have hshown {l : Literal} {type : TypeId} (hl : (Leaf.literal l).isWritten = true)
      (hclear : (Leaf.literal l).isClear = true) : (Term.mk (.literal l) type pos).IsShown :=
    ⟨⟨hl, hclear⟩, by cases l <;> rfl⟩
  cases lit with
  | int negative n suffix =>
    simp only [lowerLit] at h
    split at h
    · cases h
    · cases h
      exact hshown rfl rfl
  | float x suffix =>
    cases h
    exact hshown rfl hclear
  | bool | char | byte =>
    cases h
    exact hshown rfl rfl
  | str text =>
    obtain ⟨type, _, -, h⟩ := bind_ok h
    cases h
    exact hshown rfl rfl
  | bytes => cases h

theorem lowerBound_shown {b : Option Ast.Bound} {t : Option Term}
    (hb : b.all Ast.Bound.isWritten = true) (h : s.lowerBound b c = (.ok t, c'))
    (hclear : t.all (·.leaf.isClear) = true) : ∀ u ∈ t, u.IsShown := by
  match b with
  | none =>
    cases h
    exact nofun
  | some (.literal pos lit) =>
    obtain ⟨u, hu, rfl⟩ := map_ok h
    exact fun v hv => Option.some.inj hv ▸ lowerLit_shown hu hclear
  | some (.path p) =>
    obtain ⟨u, hu, rfl⟩ := map_ok h
    rintro v ⟨⟩
    have hp : p.isWritten = true := hb
    simp only [lowerPath] at hu
    split at hu
    · cases hu
    · obtain ⟨d, _, hget, hu⟩ := bind_ok hu
      cases hu
      simp only [Option.all_some, pathTerm] at hclear ⊢
      split at hclear
      · rename_i name hname
        have hname : isName name = true := by
          unfold Ast.Path.ident? at hname
          split at hname
          · rw [← Option.some.inj hname]
            simp only [Ast.Path.isWritten, Ast.Path.segments, List.all_append, Bool.and_eq_true,
              List.all_cons] at hp
            exact hp.2.1
          · cases hname
        split
        · refine ⟨⟨hname, rfl⟩, ?_⟩
          simp [Term.leaf, Leaf.lead, Lead.text_word, Term.render, TermForm.render, renderAll,
            commaList]
        · exact ⟨⟨hname, rfl⟩, rfl⟩
      · split at hclear
        · cases hclear
        · exact ⟨⟨isPath_joined hp, hclear⟩, (Lead.text_word _).symm⟩
  | some (.constBlock pos) => cases h

theorem shown_range {a b : Option Term} {inclusive : Bool} (ha : ∀ t ∈ a, t.IsShown)
    (hb : ∀ t ∈ b, t.IsShown) : Pattern.Shown (.range a b inclusive) := by
  have hlegible {b : Option Term} (hb : ∀ t ∈ b, t.IsShown) :
      ∀ l ∈ b.map Term.leaf, l.IsLegible := by
    cases b with
    | none => exact nofun
    | some t => exact fun l hl => Option.some.inj hl ▸ (hb t rfl).1
  have htext {b : Option Term} (hb : ∀ t ∈ b, t.IsShown) :
      (renderOption b).toList = (boundLead (b.map Term.leaf)).text := by
    cases b with
    | none => rfl
    | some t => exact (hb t rfl).2
  refine .single rfl (.node ⟨hlegible ha, hlegible hb⟩ rfl nofun nofun) ?_
  rw [Pattern.render, rangeText, String.toList_append, String.toList_append, htext ha, htext hb,
    Outline.text_node, Form.lead, Form.tail, Form.mark, Form.closing]
  cases inclusive <;> simp

mutual

/-- **A clear pattern that is lowered from what the grammar has is told by its text.** -/
theorem lowerPat_shown {c c' : Context} {p : Pattern} : (a : Pat) → a.isWritten = true →
    s.lowerPat a c = (.ok p, c') → p.isClear = true → p.Shown
  | .binding _ _ _, ha, h, _ => by
    cases h
    exact .leaf rfl ⟨ha, rfl⟩ rfl
  | .reference _ mutable a, ha, h, hp => by
    obtain ⟨q, c₁, hq, h⟩ := bind_ok h
    cases h
    obtain ⟨hclear, hmark⟩ := Bool.and_eq_true_iff.1 hp
    exact (lowerPat_shown a ha hq hclear).reference hmark
  | .struct _ path fields more, ha, h, hp => by
    obtain ⟨hpath, hfields⟩ := Bool.and_eq_true_iff.1 ha
    simp only [lowerPat] at h
    split at h
    · cases h
    · obtain ⟨d, c₁, -, h⟩ := bind_ok h
      obtain ⟨fs, c₂, hfs, h⟩ := bind_ok h
      cases h
      exact .struct (isPath_joined hpath) (lowerFieldPats_shown fields hfields hfs hp)
  | .tupleStruct _ path ps, ha, h, hp => by
    obtain ⟨hpath, hps⟩ := Bool.and_eq_true_iff.1 ha
    simp only [lowerPat] at h
    split at h
    · cases h
    · obtain ⟨qs, c₁, hqs, h⟩ := bind_ok h
      cases h
      exact .tupleStruct (isPath_joined hpath) (lowerPats_shown ps hps hqs hp)
  | .path _ path, ha, h, hp => by
    cases h
    exact .leaf rfl ⟨isPath_joined ha, hp⟩ (Lead.text_word _).symm
  | .tuple _ ps, ha, h, hp => by
    obtain ⟨qs, c₁, hqs, h⟩ := bind_ok h
    cases h
    exact .tuple (lowerPats_shown ps ha hqs hp)
  | .literal _ lit, _, h, hp => by
    obtain ⟨t, c₁, ht, h⟩ := bind_ok h
    cases h
    obtain ⟨hleaf, htext⟩ := lowerLit_shown ht hp
    exact .leaf rfl hleaf htext
  | .range _ a b _, ha, h, hp => by
    obtain ⟨t, c₁, ht, h⟩ := bind_ok h
    obtain ⟨u, c₂, hu, h⟩ := bind_ok h
    cases h
    obtain ⟨ha, hb⟩ := Bool.and_eq_true_iff.1 ha
    obtain ⟨hclear, hclear'⟩ := Bool.and_eq_true_iff.1 hp
    exact shown_range (lowerBound_shown (Bool.and_eq_true_iff.1 ha).2 ht hclear)
      (lowerBound_shown hb hu hclear')
  | .alternatives _ ps, ha, h, hp => by
    obtain ⟨qs, c₁, hqs, h⟩ := bind_ok h
    cases h
    obtain ⟨hlength, hclear⟩ := Bool.and_eq_true_iff.1 hp
    refine .alternatives (lowerPats_shown ps ha hqs hclear) ?_
    rintro rfl
    cases hlength
  | .rest _, _, h, _ => by
    cases h
    exact .single rfl Pattern.legible_points Outline.text_points.symm
  | .wild _, _, h, _ => by
    cases h
    exact .leaf rfl ⟨rfl, rfl⟩ rfl
  | .paren _ a, ha, h, hp => lowerPat_shown a ha h hp
  | .other _ _, _, h, _ => by cases h

theorem lowerPats_shown {c c' : Context} {qs : List Pattern} : (ps : List Pat) →
    Ast.writtenAll ps = true → s.lowerPats ps c = (.ok qs, c') → Pattern.clearAll qs = true →
    ∀ q ∈ qs, q.Shown
  | [], _, h, _ => by
    cases h
    exact nofun
  | p :: ps, ha, h, hp => by
    obtain ⟨q, c₁, hq, h⟩ := bind_ok h
    obtain ⟨qs, c₂, hqs, h⟩ := bind_ok h
    cases h
    obtain ⟨ha, has⟩ := Bool.and_eq_true_iff.1 ha
    obtain ⟨hp, hps⟩ := Bool.and_eq_true_iff.1 hp
    exact List.forall_mem_cons.2 ⟨lowerPat_shown p ha hq hp, lowerPats_shown ps has hqs hps⟩

theorem lowerFieldPats_shown {c c' : Context} {qs : List FieldPattern} :
    (fields : List FieldPat) → Ast.writtenFields fields = true →
    s.lowerFieldPats fields c = (.ok qs, c') → Pattern.clearFields qs = true →
    ∀ n q, .mk n q ∈ qs → (∀ c ∈ n.toList, isWordChar c = true) ∧ q.Shown
  | [], _, h, _ => by
    cases h
    exact nofun
  | .mk name p :: fields, ha, h, hp => by
    obtain ⟨q, c₁, hq, h⟩ := bind_ok h
    obtain ⟨qs, c₂, hqs, h⟩ := bind_ok h
    cases h
    simp only [Ast.writtenFields, Bool.and_eq_true, List.all_eq_true] at ha
    obtain ⟨⟨hname, ha⟩, has⟩ := ha
    obtain ⟨hp, hps⟩ := Bool.and_eq_true_iff.1 hp
    intro n r hmem
    rcases List.mem_cons.1 hmem with heq | hmem
    · cases heq
      exact ⟨hname, lowerPat_shown p ha hq hp⟩
    · exact lowerFieldPats_shown fields has hqs hps n r hmem

end

/-- **The text of a clear pattern shows its cases.**  Two patterns that are lowered from sources and
have one text differ at most in types, places and alternatives directly inside alternatives. -/
theorem lowerPat_unambiguous {s t : Scope} {c c' d d' : Context} {a b : Ast.Pat} {p q : Pattern}
    (ha : a.isWritten = true) (hb : b.isWritten = true) (hp : s.lowerPat a c = (.ok p, c'))
    (hq : t.lowerPat b d = (.ok q, d')) (hclear : p.isClear = true) (hclear' : q.isClear = true) :
    p.render = q.render ↔ p.outline = q.outline := by
  obtain ⟨-, hcases, htext⟩ := lowerPat_shown a ha hp hclear
  obtain ⟨-, hcases', htext'⟩ := lowerPat_shown b hb hq hclear'
  rw [← String.toList_inj, htext, htext']
  refine ⟨fun h => ?_, fun h => by rw [h]⟩
  have hend : EndsPart [] := ⟨⟨nofun, nofun⟩, nofun⟩
  exact (cases_inj hcases hcases' (fun c hc => (hcases c hc).told) hend hend
    (congrArg (· ++ []) h)).1

/-- A scope with nothing in it. -/
def plainScope : Scope := ⟨default, none, [], true, "a.rs"⟩

/-- `(&(mut b), _)`, a reference to a mutable variable, or `(&mut b, _)`, a mutable reference. -/
def markedPair (mutable : Bool) : Pat :=
  .tuple .start [.reference .start mutable (.binding .start "b" !mutable), .wild .start]

theorem lowerPat_unambiguous_markedPair :
    (Pattern.tuple [.reference false (.binding ⟨"b", true⟩), .wildcard]).render ≠
      (Pattern.tuple [.reference true (.binding ⟨"b", false⟩), .wildcard]).render := by
  intro h
  have hsame := (lowerPat_unambiguous (s := plainScope) (t := plainScope) (c := default)
    (d := default) (a := markedPair false) (b := markedPair true) (by decide) (by decide) rfl rfl
    rfl rfl).1 h
  cases hsame

/-- `&(mut b | c)` and `&mut b | c` have one text, but only the second is an alternative. -/
theorem lowerPat_ambiguous :
    let x : Ast.Pat := .alternatives .start [.binding .start "b" true, .binding .start "c" false]
    let y : Ast.Pat := .reference .start true (.binding .start "b" false)
    ∃ p q,
      plainScope.lowerPat (.reference .start false (.paren .start x)) default =
        (.ok p, default) ∧
      plainScope.lowerPat (.alternatives .start [y, .binding .start "c" false]) default =
        (.ok q, default) ∧
      p.render = q.render ∧ p.outline ≠ q.outline :=
  ⟨_, _, rfl, rfl, by decide, nofun⟩

end Scope

end RustFlow
