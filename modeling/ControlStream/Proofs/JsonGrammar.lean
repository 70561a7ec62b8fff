import ControlStream.Json.Tree

/-!
# The grammar of JSON

What the texts of JSON are, and that each of them is read as the tree it spells, whatever the
spaces in it, the escapes in its strings and the notation of its numbers, and however deep its
arrays and objects.

## Main definitions

* `Quoted.SpelledBy`, `Numeral.SpelledBy`, `Scalar.SpelledBy`: the texts of strings, of numbers and
  of other single values.
* `Tree.SpelledBy`: the texts of values.
* `Builder.readText`: go on with the tokens of a text.

## Main statements

* `readQuoted_spelled`, `readNumeral_spelled`: strings and numbers are read as they are spelled.
* `Builder.reads_of_spelled`: after the text of a value, the value is complete.
* `Tree.SpelledBy.read_eq`: a text is read as the tree it spells.
-/

namespace ControlStream

/-! ### Strings -/

inductive QuotedUnit.SpelledBy : QuotedUnit → List Char → Prop
  /-- A character that stands for itself. -/
  | plain {c : Char} (hquote : c ≠ '"') (hbackslash : c ≠ '\\') (hcontrol : ¬ c.toNat < 0x20) :
    SpelledBy (.char c) [c]
  | short {c d : Char} (h : shortEscape? d = some c) : SpelledBy (.char c) ['\\', d]
  | code {a b c d : Char} {n : Nat} (h : fourHex? a b c d = some n) :
    SpelledBy (.code n) ['\\', 'u', a, b, c, d]

inductive Quoted.InsideSpelledBy : List QuotedUnit → List Char → Prop
  | nil : InsideSpelledBy [] []
  | cons {unit : QuotedUnit} {units : List QuotedUnit} {s t : List Char} (h : unit.SpelledBy s)
    (hunits : InsideSpelledBy units t) : InsideSpelledBy (unit :: units) (s ++ t)

inductive Quoted.SpelledBy : Quoted → List Char → Prop
  | quoted {units : List QuotedUnit} {inside : List Char} (h : InsideSpelledBy units inside) :
    SpelledBy ⟨units, none⟩ ('"' :: inside ++ ['"'])

theorem readQuoted_unit {unit : QuotedUnit} {s : List Char} (h : unit.SpelledBy s)
    (read : List QuotedUnit) (rest : List Char) :
    readQuoted read (s ++ rest) = readQuoted (unit :: read) rest := by
  cases h with
  | plain hquote hbackslash hcontrol =>
    rw [List.singleton_append, readQuoted.eq_def]
    split
    case h_7 heq =>
      cases heq
      exact if_neg hcontrol
    all_goals simp_all
  | short hshort =>
    unfold shortEscape? at hshort
    split at hshort
    all_goals
      cases hshort
      try rfl
  | code hcode => simp [readQuoted, hcode]

/-- A string is read as it is spelled, up to its closing quote. -/
theorem readQuoted_spelled {units : List QuotedUnit} {inside : List Char}
    (h : Quoted.InsideSpelledBy units inside) (read : List QuotedUnit) (rest : List Char) :
    readQuoted read (inside ++ '"' :: rest) = (⟨read.reverse ++ units, none⟩, rest) := by
  induction h generalizing read with
  | nil => simp [readQuoted]
  | cons hunit _ ih =>
    rw [List.append_assoc, readQuoted_unit hunit, ih]
    simp

/-! ### Numbers -/

structure IsDigits (s : List Char) : Prop where
  ne_nil : s ≠ []
  isDecimal : ∀ c ∈ s, isDecimal c = true

def digitsOf (s : List Char) : List Nat := s.map (·.toNat - 0x30)

namespace Numeral

inductive FractionSpelledBy : Option (List Nat) → List Char → Prop
  | none : FractionSpelledBy none []
  | some {digits : List Char} (h : IsDigits digits) :
    FractionSpelledBy (some (digitsOf digits)) ('.' :: digits)

inductive ExponentSign : Bool → List Char → Prop
  | minus : ExponentSign true ['-']
  | plus : ExponentSign false ['+']
  | absent : ExponentSign false []

inductive ExponentSpelledBy : Option Exponent → List Char → Prop
  | none : ExponentSpelledBy none []
  | some {letter : Char} {negative : Bool} {sign digits : List Char}
    (hletter : letter = 'e' ∨ letter = 'E') (hsign : ExponentSign negative sign)
    (h : IsDigits digits) :
    ExponentSpelledBy (some ⟨negative, digitsOf digits⟩) (letter :: sign ++ digits)

/-- The text of a number after its sign. There is no zero in front of other digits. -/
inductive UnsignedSpelledBy (negative : Bool) : Numeral → List Char → Prop
  | digits {whole s t : List Char} {fraction : Option (List Nat)} {exponent : Option Exponent}
    (hwhole : IsDigits whole) (hzero : whole = ['0'] ∨ whole.head? ≠ some '0')
    (hfraction : FractionSpelledBy fraction s) (hexponent : ExponentSpelledBy exponent t) :
    UnsignedSpelledBy negative ⟨negative, digitsOf whole, fraction, exponent, .complete⟩
      (whole ++ (s ++ t))

inductive SpelledBy : Numeral → List Char → Prop
  | unsigned {n : Numeral} {s : List Char} (h : UnsignedSpelledBy false n s) : SpelledBy n s
  | minus {n : Numeral} {s : List Char} (h : UnsignedSpelledBy true n s) : SpelledBy n ('-' :: s)

end Numeral

/-- A text that does not go on with a number. -/
def EndsNumber (s : List Char) : Prop :=
  ∀ c, s.head? = some c → isDecimal c = false ∧ c ≠ '.' ∧ c ≠ 'e' ∧ c ≠ 'E'

theorem endsNumber_cons {c : Char}
    (hc : isDecimal c = false ∧ c ≠ '.' ∧ c ≠ 'e' ∧ c ≠ 'E') (s : List Char) :
    EndsNumber (c :: s) := by
  intro d hd
  cases hd
  exact hc

def EndsDigits (s : List Char) : Prop := ∀ c, s.head? = some c → isDecimal c = false

theorem endsDigits_cons {c : Char} (hc : isDecimal c = false) (s : List Char) :
    EndsDigits (c :: s) := by
  intro d hd
  cases hd
  exact hc

theorem EndsNumber.endsDigits {s : List Char} (h : EndsNumber s) : EndsDigits s :=
  fun c hc => (h c hc).1

theorem readDigits_spelled {digits rest : List Char} (h : IsDigits digits)
    (hrest : EndsDigits rest) : readDigits (digits ++ rest) = (digitsOf digits, rest) := by
  have hstop : rest.takeWhile isDecimal = [] ∧ rest.dropWhile isDecimal = rest := by
    cases rest with
    | nil => exact ⟨rfl, rfl⟩
    | cons c rest => simp [hrest c rfl]
  simp [readDigits, digitsOf, List.takeWhile_append_of_pos h.isDecimal,
    List.dropWhile_append_of_pos h.isDecimal, hstop]

/-- The digits of a text that has some. -/
theorem IsDigits.digitsOf_eq_cons {digits : List Char} (h : IsDigits digits) :
    ∃ d ds, digitsOf digits = d :: ds := by
  obtain ⟨c, s, rfl⟩ := List.exists_cons_of_ne_nil h.ne_nil
  exact ⟨_, _, rfl⟩

section Numerals

variable {n : Numeral} {rest : List Char}

theorem readExponent_spelled {negative : Bool} {sign digits : List Char}
    (hsign : Numeral.ExponentSign negative sign) (h : IsDigits digits) (hrest : EndsDigits rest) :
    readExponent n (sign ++ digits ++ rest) =
      ({ n with exponent := some ⟨negative, digitsOf digits⟩ }, rest) := by
  have hdigits := readDigits_spelled h hrest
  obtain ⟨d, ds, hcons⟩ := h.digitsOf_eq_cons
  rw [hcons] at hdigits ⊢
  cases hsign with
  | minus => simp only [readExponent, List.cons_append, List.nil_append, hdigits]
  | plus => simp only [readExponent, List.cons_append, List.nil_append, hdigits]
  | absent =>
    obtain ⟨c, s, rfl⟩ := List.exists_cons_of_ne_nil h.ne_nil
    have hc := h.isDecimal c List.mem_cons_self
    have hminus : c ≠ '-' := by
      rintro rfl
      exact absurd hc (by decide)
    have hplus : c ≠ '+' := by
      rintro rfl
      exact absurd hc (by decide)
    rw [List.cons_append] at hdigits
    simp [readExponent, hminus, hplus, hdigits]

theorem readExponent?_spelled {exponent : Option Numeral.Exponent} {s : List Char}
    (h : Numeral.ExponentSpelledBy exponent s) (hn : n.exponent = none) (hrest : EndsNumber rest) :
    readExponent? n (s ++ rest) = ({ n with exponent }, rest) := by
  cases h with
  | none =>
    rw [List.nil_append, ← hn]
    unfold readExponent?
    split
    · exact absurd rfl (hrest 'e' rfl).2.2.1
    · exact absurd rfl (hrest 'E' rfl).2.2.2
    · rfl
  | some hletter hsign hdigits =>
    have hread := readExponent_spelled (n := n) hsign hdigits hrest.endsDigits
    rcases hletter with rfl | rfl
    · exact hread
    · exact hread

/-- An exponent, if there is one, does not go on with digits. -/
theorem endsDigits_exponent {exponent : Option Numeral.Exponent} {s : List Char}
    (h : Numeral.ExponentSpelledBy exponent s) (hrest : EndsNumber rest) :
    EndsDigits (s ++ rest) := by
  cases h with
  | none => exact hrest.endsDigits
  | some hletter =>
    rcases hletter with rfl | rfl
    · exact endsDigits_cons rfl _
    · exact endsDigits_cons rfl _

/-- An exponent, if there is one, does not begin with a point. -/
theorem exponent_ne_point {exponent : Option Numeral.Exponent} {s : List Char}
    (h : Numeral.ExponentSpelledBy exponent s) (hrest : EndsNumber rest) (t : List Char) :
    s ++ rest ≠ '.' :: t := by
  cases h with
  | none =>
    rintro rfl
    exact (hrest '.' rfl).2.1 rfl
  | some hletter => rcases hletter with rfl | rfl <;> simp

theorem endsDigits_fraction {fraction : Option (List Nat)} {s : List Char}
    (h : Numeral.FractionSpelledBy fraction s) (hrest : EndsDigits rest) :
    EndsDigits (s ++ rest) := by
  cases h with
  | none => exact hrest
  | some => exact endsDigits_cons rfl _

theorem readFraction_spelled {fraction : Option (List Nat)} {exponent : Option Numeral.Exponent}
    {s t : List Char} (hfraction : Numeral.FractionSpelledBy fraction s)
    (hexponent : Numeral.ExponentSpelledBy exponent t) (hn : n.fraction = none ∧ n.exponent = none)
    (hrest : EndsNumber rest) :
    readFraction n (s ++ (t ++ rest)) = ({ n with fraction, exponent }, rest) := by
  cases hfraction with
  | none =>
    have hread := readExponent?_spelled hexponent hn.2 hrest
    rw [List.nil_append, ← hn.1]
    unfold readFraction
    split
    · rename_i heq
      exact absurd heq (exponent_ne_point hexponent hrest _)
    · exact hread
  | some hdigits =>
    have hread := readDigits_spelled hdigits (endsDigits_exponent hexponent hrest)
    obtain ⟨d, ds, hcons⟩ := hdigits.digitsOf_eq_cons
    rw [hcons] at hread ⊢
    simp only [readFraction, List.cons_append, hread]
    exact readExponent?_spelled hexponent hn.2 hrest

/-- A number is read as it is spelled. -/
theorem readNumeral_spelled {negative : Bool} {s : List Char}
    (h : n.UnsignedSpelledBy negative s) (hrest : EndsNumber rest) :
    readNumeral negative (s ++ rest) = (n, rest) := by
  obtain @⟨whole, t, u, fraction, exponent, hwhole, hzero, hfraction, hexponent⟩ := h
  have hafter : EndsDigits (t ++ (u ++ rest)) :=
    endsDigits_fraction hfraction (endsDigits_exponent hexponent hrest)
  have hread := readFraction_spelled (n := ⟨negative, digitsOf whole, none, none, .complete⟩)
    hfraction hexponent ⟨rfl, rfl⟩ hrest
  have hdigits := readDigits_spelled hwhole hafter
  rw [List.append_assoc, List.append_assoc]
  unfold readNumeral
  split
  · -- A zero comes first, so there is no other digit before the point.
    rename_i c after heq
    have hwhole : whole = ['0'] := by
      refine hzero.resolve_right fun hne => ?_
      obtain ⟨d, front, rfl⟩ := List.exists_cons_of_ne_nil hwhole.ne_nil
      exact hne (congrArg some (List.cons.inj heq).1)
    subst hwhole
    have hafterZero : t ++ (u ++ rest) = c :: after := (List.cons.inj heq).2
    rw [hafterZero] at hread hafter
    rw [if_neg (by simp [hafter c rfl])]
    exact hread
  · obtain ⟨d, ds, hcons⟩ := hwhole.digitsOf_eq_cons
    rw [hcons] at hdigits hread ⊢
    simp only [hdigits]
    exact hread

end Numerals

/-! ### Single values -/

inductive Scalar.SpelledBy : Scalar → List Char → Prop
  | null : SpelledBy .null ['n', 'u', 'l', 'l']
  | true : SpelledBy (.bool true) ['t', 'r', 'u', 'e']
  | false : SpelledBy (.bool false) ['f', 'a', 'l', 's', 'e']
  | number {n : Numeral} {s : List Char} (h : n.SpelledBy s) : SpelledBy (.number n) s
  | string {q : Quoted} {s : List Char} (h : q.SpelledBy s) : SpelledBy (.string q) s

theorem isJsonSpace_of_isDecimal {c : Char} (h : isDecimal c = true) : isJsonSpace c = false := by
  rw [Bool.eq_false_iff]
  intro hspace
  have hmem : c ∈ [' ', '\n', '\t', '\r'] := List.contains_iff_mem.mp hspace
  simp only [List.mem_cons, List.not_mem_nil, or_false] at hmem
  rcases hmem with rfl | rfl | rfl | rfl <;> exact absurd h (by decide)

/-- A string is a single token, up to its closing quote. -/
theorem readToken_string {q : Quoted} {s : List Char} (h : q.SpelledBy s) (rest : List Char) :
    ∃ inside, s ++ rest = '"' :: inside ∧ readToken '"' inside = (.scalar (.string q), rest) := by
  obtain @⟨units, inside, hinside⟩ := h
  refine ⟨inside ++ '"' :: rest, by simp, ?_⟩
  simp only [readToken, readQuoted_spelled hinside]
  rfl

theorem readToken_unsigned {n : Numeral} {s rest : List Char} (h : n.UnsignedSpelledBy false s)
    (hrest : EndsNumber rest) :
    ∃ c digits, s ++ rest = c :: digits ∧ isJsonSpace c = false ∧
      readToken c digits = (.scalar (.number n), rest) := by
  have hread := readNumeral_spelled h hrest
  obtain @⟨whole, t, u, fraction, exponent, hwhole, -, -, -⟩ := h
  obtain ⟨c, front, rfl⟩ := List.exists_cons_of_ne_nil hwhole.ne_nil
  have hc := hwhole.isDecimal c List.mem_cons_self
  refine ⟨c, front ++ (t ++ u) ++ rest, rfl, isJsonSpace_of_isDecimal hc, ?_⟩
  unfold readToken
  split
  case h_12 =>
    rw [if_pos hc]
    exact congrArg (fun read => (Token.scalar (.number read.1), read.2)) hread
  all_goals exact absurd hc (by decide)

/-- A value that is not an array or an object is a single token. -/
theorem readToken_scalar {scalar : Scalar} {s rest : List Char} (h : scalar.SpelledBy s)
    (hrest : EndsNumber rest) :
    ∃ c inside, s ++ rest = c :: inside ∧ isJsonSpace c = false ∧
      readToken c inside = (.scalar scalar, rest) := by
  cases h with
  | null | true | false => exact ⟨_, _, rfl, by decide, rfl⟩
  | number hnumber =>
    cases hnumber with
    | unsigned hunsigned => exact readToken_unsigned hunsigned hrest
    | @minus digits hunsigned =>
      refine ⟨'-', digits ++ rest, rfl, by decide, ?_⟩
      simp only [readToken, readNumeral_spelled hunsigned hrest]
  | string hstring =>
    obtain ⟨inside, htext, hread⟩ := readToken_string hstring rest
    exact ⟨'"', inside, htext, by decide, hread⟩

/-! ### Values -/

def commaSeparated : List (List Char) → List Char
  | [] => []
  | s :: texts => s ++ texts.flatMap (',' :: ·)

/-- A member of an object together with its text: spaces, the name between quotes, spaces again, and
behind the colon the value. -/
structure SpelledMember where
  before : List Char
  name : Quoted
  quoted : List Char
  behind : List Char
  value : Tree
  text : List Char

namespace SpelledMember

def chars (m : SpelledMember) : List Char := m.before ++ (m.quoted ++ (m.behind ++ ':' :: m.text))

/-- The text has the name of the member in it. -/
structure Named (m : SpelledMember) : Prop where
  before : ∀ c ∈ m.before, isJsonSpace c = true
  quoted : m.name.SpelledBy m.quoted
  behind : ∀ c ∈ m.behind, isJsonSpace c = true

end SpelledMember

/-- The text of a value, with spaces around it or without. -/
inductive Tree.SpelledBy : Tree → List Char → Prop
  | scalar {s : Scalar} {text : List Char} (h : s.SpelledBy text) : SpelledBy (.scalar s) text
  | list {items : List (Tree × List Char)} {spaces : List Char}
    (h : ∀ item ∈ items, SpelledBy item.1 item.2) (hspaces : ∀ c ∈ spaces, isJsonSpace c = true) :
    SpelledBy (.list (items.map (·.1)) none)
      ('[' :: (commaSeparated (items.map (·.2)) ++ (spaces ++ [']'])))
  | object {members : List SpelledMember} {spaces : List Char} (hnames : ∀ m ∈ members, m.Named)
    (h : ∀ m ∈ members, SpelledBy m.value m.text) (hspaces : ∀ c ∈ spaces, isJsonSpace c = true) :
    SpelledBy (.object (members.map fun m => (m.name, m.value)) none)
      ('{' :: (commaSeparated (members.map (·.chars)) ++ (spaces ++ ['}'])))
  | before {tree : Tree} {spaces text : List Char} (hspaces : ∀ c ∈ spaces, isJsonSpace c = true)
    (h : SpelledBy tree text) : SpelledBy tree (spaces ++ text)
  | behind {tree : Tree} {spaces text : List Char} (hspaces : ∀ c ∈ spaces, isJsonSpace c = true)
    (h : SpelledBy tree text) : SpelledBy tree (text ++ spaces)

/-! ### The tokens of a text -/

theorem tokensOnto_eq (read : List Token) (s : List Char) :
    tokensOnto read s = tokensOnto [] s ++ read := by
  match s with
  | [] => simp [tokensOnto]
  | c :: s =>
    rw [tokensOnto, tokensOnto]
    split
    · exact tokensOnto_eq read s
    · rw [tokensOnto_eq (_ :: read), tokensOnto_eq [_]]
      simp
termination_by s.length
decreasing_by
  · exact Nat.lt_succ_of_le (length_readToken_le c s)
  · exact Nat.lt_succ_of_le (length_readToken_le c s)
  · simp

theorem tokensOf_space {c : Char} (hc : isJsonSpace c = true) (s : List Char) :
    tokensOf (c :: s) = tokensOf s := by
  rw [tokensOf, tokensOnto, if_pos hc]
  rfl

theorem tokensOf_token {c : Char} (hc : isJsonSpace c = false) (s : List Char) :
    tokensOf (c :: s) = (readToken c s).1 :: tokensOf (readToken c s).2 := by
  rw [tokensOf, tokensOnto, if_neg (by simp [hc]), tokensOnto_eq, List.reverse_append]
  rfl

namespace Builder

def readText (b : Builder) (s : List Char) : Builder := (tokensOf s).foldl step b

variable {b : Builder}

@[simp] theorem readText_nil : b.readText [] = b := by
  rw [readText, tokensOf, tokensOnto]
  rfl

theorem readText_spaces {spaces : List Char} (h : ∀ c ∈ spaces, isJsonSpace c = true)
    (s : List Char) : b.readText (spaces ++ s) = b.readText s := by
  induction spaces with
  | nil => rfl
  | cons c spaces ih =>
    obtain ⟨hc, hspaces⟩ := List.forall_mem_cons.mp h
    rw [List.cons_append, readText, tokensOf_space hc]
    exact ih hspaces

theorem readText_token {c : Char} {s rest : List Char} {t : Token} (hc : isJsonSpace c = false)
    (ht : readToken c s = (t, rest)) : b.readText (c :: s) = (b.step t).readText rest := by
  rw [readText, tokensOf_token hc, ht]
  rfl

/-- A token of a single character. -/
theorem readText_mark {c : Char} {t : Token} (hc : isJsonSpace c = false)
    (ht : ∀ s, readToken c s = (t, s)) (s : List Char) :
    b.readText (c :: s) = (b.step t).readText s := readText_token hc (ht s)

/-- A place where a value may come. -/
def Expect.AllowsValue (expect : Expect) : Prop :=
  expect = .value ∨ expect = .firstItem ∨ expect = .nextItem

theorem step_value {expect : Expect} (h : expect.AllowsValue) (stack : List Frame) {t : Token}
    (ht : t ≠ .closeList) : (building expect stack).step t = value stack t := by
  rcases h with rfl | rfl | rfl <;> simp [step, ht]

theorem readText_openList {expect : Expect} (h : expect.AllowsValue) (stack : List Frame)
    (s : List Char) :
    (building expect stack).readText ('[' :: s) =
      (building .firstItem (.list [] :: stack)).readText s := by
  rw [readText_mark (t := .openList) (by decide) (fun _ => rfl), step_value h stack (by simp)]
  rfl

theorem readText_openObject {expect : Expect} (h : expect.AllowsValue) (stack : List Frame)
    (s : List Char) :
    (building expect stack).readText ('{' :: s) =
      (building .firstName (.object [] :: stack)).readText s := by
  rw [readText_mark (t := .openObject) (by decide) (fun _ => rfl), step_value h stack (by simp)]
  rfl

theorem readText_commaInList (items : List Tree) (stack : List Frame) (s : List Char) :
    (building .separator (.list items :: stack)).readText (',' :: s) =
      (building .nextItem (.list items :: stack)).readText s :=
  readText_mark (t := .comma) (by decide) (fun _ => rfl) s

theorem readText_commaInObject (members : List (Quoted × Tree)) (stack : List Frame)
    (s : List Char) :
    (building .separator (.object members :: stack)).readText (',' :: s) =
      (building .nextName (.object members :: stack)).readText s :=
  readText_mark (t := .comma) (by decide) (fun _ => rfl) s

theorem readText_closeList (items : List Tree) (stack : List Frame) (s : List Char) :
    (building .separator (.list items :: stack)).readText (']' :: s) =
      (complete (.list items.reverse none) stack).readText s :=
  readText_mark (t := .closeList) (by decide) (fun _ => rfl) s

theorem readText_closeObject (members : List (Quoted × Tree)) (stack : List Frame)
    (s : List Char) :
    (building .separator (.object members :: stack)).readText ('}' :: s) =
      (complete (.object members.reverse none) stack).readText s :=
  readText_mark (t := .closeObject) (by decide) (fun _ => rfl) s

/-- Wherever a value may come, `text` is read as `tree`. -/
def Reads (tree : Tree) (text : List Char) : Prop :=
  ∀ {expect : Expect}, expect.AllowsValue → ∀ (stack : List Frame) {rest : List Char},
    EndsNumber rest →
      (building expect stack).readText (text ++ rest) = (complete tree stack).readText rest

theorem reads_scalar {s : Scalar} {text : List Char} (h : s.SpelledBy text) :
    Reads (.scalar s) text := by
  intro expect hexpect stack rest hrest
  obtain ⟨c, inside, htext, hc, hread⟩ := readToken_scalar h hrest
  rw [htext, readText_token hc hread, step_value hexpect stack (by simp)]
  rfl

theorem endsNumber_flatMap (texts : List (List Char)) {rest : List Char} (h : EndsNumber rest) :
    EndsNumber (texts.flatMap (',' :: ·) ++ rest) := by
  cases texts with
  | nil => exact h
  | cons s texts => exact endsNumber_cons (by decide) _

theorem endsNumber_spaces {spaces : List Char} (hspaces : ∀ c ∈ spaces, isJsonSpace c = true)
    {rest : List Char} (h : EndsNumber rest) : EndsNumber (spaces ++ rest) := by
  cases spaces with
  | nil => exact h
  | cons c spaces =>
    have hmem : c ∈ [' ', '\n', '\t', '\r'] :=
      List.contains_iff_mem.mp (hspaces c List.mem_cons_self)
    simp only [List.mem_cons, List.not_mem_nil, or_false] at hmem
    refine endsNumber_cons ?_ _
    rcases hmem with rfl | rfl | rfl | rfl <;> decide

/-- The items of an array after the first. -/
theorem readText_items {items : List (Tree × List Char)} (h : ∀ item ∈ items, Reads item.1 item.2)
    (read : List Tree) (stack : List Frame) {rest : List Char} (hrest : EndsNumber rest) :
    (building .separator (.list read :: stack)).readText
        ((items.map (·.2)).flatMap (',' :: ·) ++ rest) =
      (building .separator (.list ((items.map (·.1)).reverse ++ read) :: stack)).readText rest := by
  induction items generalizing read with
  | nil => rfl
  | cons item items ih =>
    obtain ⟨hitem, hitems⟩ := List.forall_mem_cons.mp h
    rw [List.map_cons, List.flatMap_cons, List.append_assoc, List.cons_append, readText_commaInList,
      hitem (.inr (.inr rfl)) _ (endsNumber_flatMap _ hrest), complete, ih hitems]
    simp

theorem reads_list {items : List (Tree × List Char)} {spaces : List Char}
    (h : ∀ item ∈ items, Reads item.1 item.2) (hspaces : ∀ c ∈ spaces, isJsonSpace c = true) :
    Reads (.list (items.map (·.1)) none)
      ('[' :: (commaSeparated (items.map (·.2)) ++ (spaces ++ [']']))) := by
  intro expect hexpect stack rest _
  rw [List.cons_append, readText_openList hexpect]
  simp only [List.append_assoc, List.singleton_append]
  cases items with
  | nil =>
    rw [List.map_nil, commaSeparated, List.nil_append, readText_spaces hspaces]
    exact readText_mark (t := .closeList) (by decide) (fun _ => rfl) rest
  | cons item items =>
    obtain ⟨hitem, hitems⟩ := List.forall_mem_cons.mp h
    have hend := endsNumber_spaces hspaces (endsNumber_cons (c := ']') (by decide) rest)
    rw [List.map_cons, commaSeparated, List.append_assoc,
      hitem (.inr (.inl rfl)) _ (endsNumber_flatMap _ hend), complete,
      readText_items hitems _ _ hend, readText_spaces hspaces, readText_closeList]
    simp

/-- A member of an object, if its value is read as it should be. -/
theorem readText_member {m : SpelledMember} (hname : m.Named) (h : Reads m.value m.text)
    {expect : Expect} (hexpect : expect = .firstName ∨ expect = .nextName)
    (read : List (Quoted × Tree)) (stack : List Frame) {rest : List Char}
    (hrest : EndsNumber rest) :
    (building expect (.object read :: stack)).readText (m.chars ++ rest) =
      (building .separator (.object ((m.name, m.value) :: read) :: stack)).readText rest := by
  have hstep : (building expect (.object read :: stack)).step (.scalar (.string m.name)) =
      building .colon (.member read m.name :: stack) := by
    rcases hexpect with rfl | rfl <;> rfl
  have hcolon : (building .colon (.member read m.name :: stack)).step .colon =
      building .value (.member read m.name :: stack) := rfl
  obtain ⟨inside, hquoted, hread⟩ :=
    readToken_string hname.quoted (m.behind ++ ':' :: (m.text ++ rest))
  simp only [SpelledMember.chars, List.append_assoc, List.cons_append]
  rw [readText_spaces hname.before, hquoted, readText_token (by decide) hread, hstep,
    readText_spaces hname.behind,
    readText_mark (t := .colon) (by decide) (fun _ => rfl), hcolon, h (.inl rfl) _ hrest]
  rfl

/-- The members of an object after the first. -/
theorem readText_members {members : List SpelledMember} (hnames : ∀ m ∈ members, m.Named)
    (h : ∀ m ∈ members, Reads m.value m.text) (read : List (Quoted × Tree)) (stack : List Frame)
    {rest : List Char} (hrest : EndsNumber rest) :
    (building .separator (.object read :: stack)).readText
        ((members.map (·.chars)).flatMap (',' :: ·) ++ rest) =
      (building .separator
        (.object ((members.map fun m => (m.name, m.value)).reverse ++ read) :: stack)).readText
          rest := by
  induction members generalizing read with
  | nil => rfl
  | cons m members ih =>
    obtain ⟨hname, hnames⟩ := List.forall_mem_cons.mp hnames
    obtain ⟨hvalue, hvalues⟩ := List.forall_mem_cons.mp h
    rw [List.map_cons, List.flatMap_cons, List.append_assoc, List.cons_append,
      readText_commaInObject,
      readText_member hname hvalue (.inr rfl) _ _ (endsNumber_flatMap _ hrest), ih hnames hvalues]
    simp

theorem reads_object {members : List SpelledMember} {spaces : List Char}
    (hnames : ∀ m ∈ members, m.Named) (h : ∀ m ∈ members, Reads m.value m.text)
    (hspaces : ∀ c ∈ spaces, isJsonSpace c = true) :
    Reads (.object (members.map fun m => (m.name, m.value)) none)
      ('{' :: (commaSeparated (members.map (·.chars)) ++ (spaces ++ ['}']))) := by
  intro expect hexpect stack rest _
  rw [List.cons_append, readText_openObject hexpect]
  simp only [List.append_assoc, List.singleton_append]
  cases members with
  | nil =>
    rw [List.map_nil, commaSeparated, List.nil_append, readText_spaces hspaces]
    exact readText_mark (t := .closeObject) (by decide) (fun _ => rfl) rest
  | cons m members =>
    obtain ⟨hname, hnames⟩ := List.forall_mem_cons.mp hnames
    obtain ⟨hvalue, hvalues⟩ := List.forall_mem_cons.mp h
    have hend := endsNumber_spaces hspaces (endsNumber_cons (c := '}') (by decide) rest)
    rw [List.map_cons, commaSeparated, List.append_assoc,
      readText_member hname hvalue (.inl rfl) _ _ (endsNumber_flatMap _ hend),
      readText_members hnames hvalues _ _ hend, readText_spaces hspaces, readText_closeObject]
    simp

/-- The text of a value is read as the value it spells. -/
theorem reads_of_spelled {tree : Tree} {text : List Char} (h : tree.SpelledBy text) :
    Reads tree text := by
  induction h with
  | scalar h => exact reads_scalar h
  | list _ hspaces ih => exact reads_list ih hspaces
  | object hnames _ hspaces ih => exact reads_object hnames ih hspaces
  | before hspaces _ ih =>
    intro expect hexpect stack rest hrest
    rw [List.append_assoc, readText_spaces hspaces]
    exact ih hexpect stack hrest
  | behind hspaces _ ih =>
    intro expect hexpect stack rest hrest
    rw [List.append_assoc, ih hexpect stack (endsNumber_spaces hspaces hrest),
      readText_spaces hspaces]

end Builder

/-- A text is read as the tree it spells. -/
theorem Tree.SpelledBy.read_eq {tree : Tree} {text : List Char} (h : tree.SpelledBy text) :
    JsonText.read text = ⟨tree, false⟩ := by
  have hend : EndsNumber [] := fun c hc => nomatch hc
  have hread := Builder.reads_of_spelled h (.inl rfl) [] hend
  rw [List.append_nil, Builder.readText_nil] at hread
  have htokens : (tokensOf text).foldl Builder.step .start = .built tree false := hread
  rw [JsonText.read, htokens]
  rfl

end ControlStream
