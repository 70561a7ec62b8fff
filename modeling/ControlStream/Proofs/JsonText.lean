import ControlStream.Json.Number
import ControlStream.Json.Value
import ControlStream.Proofs.JsonGrammar

/-!
# Written JSON is read back

The text of a value, in any layout, spells the tree of the value: strings by their characters,
numbers by their digits, arrays and objects by their parts. So it is read as that tree.

## Main definitions

* `Quoted.ofString`, `Numeral.ofNat`: how strings and numbers are read that were written.
* `Json.tree`: the tree of a value.
* `Json.chars`: the characters of the text of a value.

## Main statements

* `Json.toList_printOnto`: printing a value puts its characters behind a text.
* `Quoted.SpelledBy.ofString`, `Numeral.SpelledBy.ofNat`: strings and numbers are spelled as they
  are written.
* `Json.spelledBy_pretty`, `Json.spelledBy_compact`: so are values.
-/

namespace ControlStream

/-! ### Values as trees -/

def QuotedUnit.ofChar (c : Char) : QuotedUnit :=
  if c.toNat < 0x20 ∧ c ∉ ['\x08', '\x0c', '\n', '\r', '\t'] then .code c.toNat else .char c

def Quoted.ofString (s : String) : Quoted := ⟨s.toList.map .ofChar, none⟩

def Numeral.ofNat (n : Nat) : Numeral where
  negative := false
  whole := (Nat.toDigits 10 n).map (·.toNat - 0x30)
  fraction := none
  exponent := none
  ending := .complete

namespace Json

mutual

def tree : Json → Tree
  | .null => .scalar .null
  | .bool b => .scalar (.bool b)
  | .number n => .scalar (.number (.ofNat n))
  | .string s => .scalar (.string (.ofString s))
  | .array items => .list (itemTrees items) none
  | .object members => .object (memberTrees members) none

def itemTrees : List Json → List Tree
  | [] => []
  | item :: items => item.tree :: itemTrees items

def memberTrees : List (String × Json) → List (Quoted × Tree)
  | [] => []
  | (name, value) :: members => (.ofString name, value.tree) :: memberTrees members

end

theorem itemTrees_eq_map (items : List Json) : itemTrees items = items.map tree := by
  induction items with
  | nil => rfl
  | cons item items ih => rw [itemTrees, ih, List.map_cons]

/-! ### The characters of a text -/

def quoted (s : String) : List Char := '"' :: (s.toList.flatMap fun c => (escape c).toList) ++ ['"']

mutual

def chars (layout : Layout) : Json → List Char
  | .null => ['n', 'u', 'l', 'l']
  | .bool true => ['t', 'r', 'u', 'e']
  | .bool false => ['f', 'a', 'l', 's', 'e']
  | .number n => Nat.toDigits 10 n
  | .string s => quoted s
  | .array [] => ['[', ']']
  | .array (item :: items) =>
    '[' :: layout.inner.lineBreak.toList ++ chars layout.inner item ++
      itemsChars layout.inner items ++ layout.lineBreak.toList ++ [']']
  | .object [] => ['{', '}']
  | .object ((name, value) :: members) =>
    '{' :: layout.inner.lineBreak.toList ++ quoted name ++ layout.inner.colon.toList ++
      chars layout.inner value ++ membersChars layout.inner members ++ layout.lineBreak.toList ++
      ['}']

def itemsChars (layout : Layout) : List Json → List Char
  | [] => []
  | item :: items =>
    ',' :: layout.lineBreak.toList ++ chars layout item ++ itemsChars layout items

def membersChars (layout : Layout) : List (String × Json) → List Char
  | [] => []
  | (name, value) :: members =>
    ',' :: layout.lineBreak.toList ++ quoted name ++ layout.colon.toList ++ chars layout value ++
      membersChars layout members

end

theorem toList_quoteOnto (text s : String) :
    (quoteOnto text s).toList = text.toList ++ quoted s := by
  have hfold : ∀ (cs : List Char) (text : String),
      (cs.foldl (fun text c => text ++ escape c) text).toList =
        text.toList ++ cs.flatMap fun c => (escape c).toList := by
    intro cs
    induction cs with
    | nil => simp
    | cons c cs ih => simp [ih]
  simp [quoteOnto, quoted, hfold]

mutual

/-- Printing a value puts its characters behind a text. -/
theorem toList_printOnto (layout : Layout) (text : String) (j : Json) :
    (printOnto layout text j).toList = text.toList ++ j.chars layout := by
  match j with
  | .null => simp [printOnto, chars]
  | .bool true => simp [printOnto, chars]
  | .bool false => simp [printOnto, chars]
  | .number n => simp [printOnto, chars]
  | .string s => exact toList_quoteOnto text s
  | .array [] => simp [printOnto, chars]
  | .array (item :: items) =>
    simp [printOnto, chars, toList_printItems, toList_printOnto layout.inner _ item]
  | .object [] => simp [printOnto, chars]
  | .object ((name, value) :: members) =>
    simp [printOnto, chars, toList_printMembers, toList_quoteOnto,
      toList_printOnto layout.inner _ value]

theorem toList_printItems (layout : Layout) (text : String) (items : List Json) :
    (printItems layout text items).toList = text.toList ++ itemsChars layout items := by
  match items with
  | [] => simp [printItems, itemsChars]
  | item :: items =>
    simp [printItems, itemsChars, toList_printItems layout _ items, toList_printOnto layout _ item]

theorem toList_printMembers (layout : Layout) (text : String) (members : List (String × Json)) :
    (printMembers layout text members).toList = text.toList ++ membersChars layout members := by
  match members with
  | [] => simp [printMembers, membersChars]
  | (name, value) :: members =>
    simp [printMembers, membersChars, toList_quoteOnto, toList_printMembers layout _ members,
      toList_printOnto layout _ value]

end

end Json

/-! ### Strings -/

theorem fourHex?_digitChar {n : Nat} (h : n < 0x100) :
    fourHex? '0' '0' (Nat.digitChar (n / 16)) (Nat.digitChar (n % 16)) = some n := by
  have hhigh := hexValue?_digitChar (n / 16) (by omega)
  have hlow := hexValue?_digitChar (n % 16) (by omega)
  have hzero : hexValue? '0' = some 0 := rfl
  simp only [fourHex?, hzero, hhigh, hlow, Option.bind_eq_bind, Option.bind_some]
  exact congrArg some (by omega)

/-- A character is spelled by its escape. -/
theorem QuotedUnit.SpelledBy.ofChar (c : Char) :
    (QuotedUnit.ofChar c).SpelledBy (Json.escape c).toList := by
  unfold Json.escape
  split
  case h_8 hquote hbackslash hb hf hn hr ht =>
    split
    · rename_i hcontrol
      have hunit : QuotedUnit.ofChar c = .code c.toNat :=
        if_pos ⟨hcontrol, by simpa using ⟨hb, hf, hn, hr, ht⟩⟩
      have hcode := fourHex?_digitChar (n := c.toNat) (by omega)
      rw [hunit]
      simpa using code hcode
    · rename_i hcontrol
      have hunit : QuotedUnit.ofChar c = .char c := if_neg fun h => hcontrol h.1
      rw [hunit]
      simpa using plain hquote hbackslash hcontrol
  all_goals exact short rfl

/-- A string is spelled by its characters between quotes. -/
theorem Quoted.SpelledBy.ofString (s : String) :
    (Quoted.ofString s).SpelledBy (Json.quoted s) := by
  refine .quoted ?_
  induction s.toList with
  | nil => exact .nil
  | cons c cs ih => exact .cons (.ofChar c) ih

theorem Quoted.decodeOnto_ofChar (text : String) (cs : List Char) :
    decodeOnto none text (cs.map .ofChar) = .ok (text ++ String.ofList cs) := by
  induction cs generalizing text with
  | nil => simp [decodeOnto]
  | cons c cs ih =>
    have hpush : text ++ String.ofList (c :: cs) = text.push c ++ String.ofList cs := by
      apply String.toList_injective
      simp
    rw [List.map_cons, hpush, ← ih]
    unfold QuotedUnit.ofChar
    split
    · rename_i hcontrol
      rw [decodeOnto.eq_def]
      simp only
      rw [if_neg (by omega), if_neg (by omega), Char.ofNat_toNat]
    · rfl

/-- A string that was written has its text. -/
@[simp] theorem Quoted.decode_ofString (s : String) : (Quoted.ofString s).decode = .ok s := by
  simp [decode, ofString, decodeOnto_ofChar]

/-! ### Numbers -/

theorem digitChar_eq_zero : ∀ d < 10, Nat.digitChar d = '0' → d = 0 := by decide

/-- Only zero is written with a zero in front. -/
theorem eq_zero_of_toDigits {n : Nat} {s : List Char} (h : Nat.toDigits 10 n = '0' :: s) :
    n = 0 ∧ s = [] := by
  induction n using Nat.strongRecOn generalizing s with
  | ind n ih =>
    by_cases hn : n < 10
    · rw [Nat.toDigits_of_lt_base hn] at h
      obtain ⟨hdigit, rfl⟩ := List.cons.inj h
      exact ⟨digitChar_eq_zero n hn hdigit, rfl⟩
    · rw [Nat.toDigits_of_base_le (by decide) (by omega)] at h
      obtain ⟨c, front, hfront⟩ := List.exists_cons_of_ne_nil (Nat.toDigits_ne_nil (n := n / 10)
        (b := 10))
      rw [hfront, List.cons_append] at h
      obtain ⟨rfl, -⟩ := List.cons.inj h
      have hzero := (ih (n / 10) (by omega) hfront).1
      omega

/-- A number is spelled by its digits. -/
theorem Numeral.SpelledBy.ofNat (n : Nat) :
    (Numeral.ofNat n).SpelledBy (Nat.toDigits 10 n) := by
  have hdigits : IsDigits (Nat.toDigits 10 n) :=
    ⟨Nat.toDigits_ne_nil, fun _ => isDecimal_of_mem_toDigits⟩
  have hzero : Nat.toDigits 10 n = ['0'] ∨ (Nat.toDigits 10 n).head? ≠ some '0' := by
    by_cases hhead : (Nat.toDigits 10 n).head? = some '0'
    · obtain ⟨digits, htext⟩ := List.head?_eq_some_iff.mp hhead
      rw [htext, (eq_zero_of_toDigits htext).2]
      exact .inl rfl
    · exact .inr hhead
  have hspelled : UnsignedSpelledBy false _ _ := .digits hdigits hzero .none .none
  rw [List.append_nil, List.append_nil] at hspelled
  exact .unsigned hspelled

theorem Numeral.wholeValue_ofNat (n : Nat) : (Numeral.ofNat n).wholeValue = n := by
  have hvalue : ∀ (cs : List Char) (v : Nat),
      (cs.map (·.toNat - 0x30)).foldl (fun value digit => value * 10 + digit) v =
        Nat.ofDigitChars 10 cs v := by
    intro cs
    induction cs with
    | nil => intro v; rfl
    | cons c cs ih =>
      intro v
      rw [List.map_cons, List.foldl_cons, ih, Nat.ofDigitChars_cons, Nat.mul_comm]
      rfl
  rw [wholeValue, ofNat, hvalue, Nat.ofDigitChars_ten_toDigits]

/-- A number that was written has its value. -/
theorem Numeral.evaluate_ofNat {n : Nat} (h : n ≤ Decimal.maxSignificand) :
    (Numeral.ofNat n).evaluate = .ok (.natural n) := by
  simp only [evaluate, fault?, isInteger, wholeValue_ofNat]
  simp [ofNat, h]

/-! ### Values -/

theorem Layout.isJsonSpace_lineBreak (layout : Layout) :
    ∀ c ∈ layout.lineBreak.toList, isJsonSpace c = true := by
  intro c hc
  cases layout with
  | compact => cases hc
  | indented depth =>
    simp only [lineBreak, String.toList_append, String.toList_ofList, List.mem_append,
      List.mem_replicate] at hc
    rcases hc with hc | ⟨-, rfl⟩
    · cases List.mem_singleton.mp hc
      rfl
    · rfl

/-- A colon and the space after it, if there is one. -/
theorem Layout.exists_colon (layout : Layout) :
    ∃ spaces, layout.colon.toList = ':' :: spaces ∧ ∀ c ∈ spaces, isJsonSpace c = true := by
  cases layout with
  | compact => exact ⟨[], rfl, List.forall_mem_nil _⟩
  | indented depth => exact ⟨[' '], by simp [colon], List.forall_mem_singleton.mpr rfl⟩

namespace Json

def spelledItem (layout : Layout) (item : Json) : Tree × List Char :=
  (item.tree, layout.lineBreak.toList ++ item.chars layout)

def spelledMember (layout : Layout) (member : String × Json) : SpelledMember where
  before := layout.lineBreak.toList
  name := .ofString member.1
  quoted := quoted member.1
  behind := []
  value := member.2.tree
  text := layout.colon.toList.tail ++ member.2.chars layout

@[simp] theorem name_spelledMember (layout : Layout) (member : String × Json) :
    (spelledMember layout member).name = .ofString member.1 := rfl

@[simp] theorem value_spelledMember (layout : Layout) (member : String × Json) :
    (spelledMember layout member).value = member.2.tree := rfl

theorem named_of_mem_spelled {layout : Layout} {members : List (String × Json)} {m : SpelledMember}
    (h : m ∈ members.map (spelledMember layout)) : m.Named := by
  obtain ⟨member, -, rfl⟩ := List.mem_map.mp h
  exact ⟨layout.isJsonSpace_lineBreak, .ofString member.1, List.forall_mem_nil _⟩

theorem chars_spelledMember (layout : Layout) (member : String × Json) :
    (spelledMember layout member).chars = layout.lineBreak.toList ++
      (quoted member.1 ++ (layout.colon.toList ++ member.2.chars layout)) := by
  obtain ⟨spaces, hcolon, -⟩ := layout.exists_colon
  simp [spelledMember, SpelledMember.chars, hcolon]

theorem itemsChars_eq (layout : Layout) (items : List Json) :
    itemsChars layout items =
      ((items.map (spelledItem layout)).map (·.2)).flatMap (',' :: ·) := by
  induction items with
  | nil => rfl
  | cons item items ih => simp [itemsChars, ih, spelledItem]

theorem membersChars_eq (layout : Layout) (members : List (String × Json)) :
    membersChars layout members =
      ((members.map (spelledMember layout)).map (·.chars)).flatMap (',' :: ·) := by
  induction members with
  | nil => rfl
  | cons member members ih => simp [membersChars, ih, chars_spelledMember]

theorem memberTrees_eq_map (members : List (String × Json)) :
    memberTrees members = members.map fun m => (.ofString m.1, m.2.tree) := by
  induction members with
  | nil => rfl
  | cons member members ih => rw [memberTrees, ih, List.map_cons]

mutual

/-- The text of a value, in any layout, spells its tree. -/
theorem spelledBy_chars (layout : Layout) (j : Json) : j.tree.SpelledBy (j.chars layout) := by
  match j with
  | .null => exact .scalar .null
  | .bool true => exact .scalar .true
  | .bool false => exact .scalar .false
  | .number n => exact .scalar (.number (.ofNat n))
  | .string s => exact .scalar (.string (.ofString s))
  | .array [] => exact .list (List.forall_mem_nil _) (List.forall_mem_nil _)
  | .array (item :: items) =>
    have hspelled := Tree.SpelledBy.list (spelledBy_items layout.inner (item :: items))
      layout.isJsonSpace_lineBreak
    simpa [tree, itemTrees_eq_map, chars, itemsChars_eq, commaSeparated, spelledItem,
      Function.comp_def] using hspelled
  | .object [] =>
    exact .object (List.forall_mem_nil _) (List.forall_mem_nil _) (List.forall_mem_nil _)
  | .object ((name, value) :: members) =>
    have hspelled := Tree.SpelledBy.object (fun _ => named_of_mem_spelled)
      (spelledBy_members layout.inner ((name, value) :: members)) layout.isJsonSpace_lineBreak
    simpa [tree, memberTrees_eq_map, chars, membersChars_eq, commaSeparated, chars_spelledMember,
      Function.comp_def] using hspelled

theorem spelledBy_items (layout : Layout) (items : List Json) :
    ∀ item ∈ items.map (spelledItem layout), item.1.SpelledBy item.2 := by
  match items with
  | [] => exact List.forall_mem_nil _
  | item :: items =>
    refine List.forall_mem_cons.mpr ⟨?_, spelledBy_items layout items⟩
    exact .before layout.isJsonSpace_lineBreak (spelledBy_chars layout item)

theorem spelledBy_members (layout : Layout) (members : List (String × Json)) :
    ∀ m ∈ members.map (spelledMember layout), m.value.SpelledBy m.text := by
  match members with
  | [] => exact List.forall_mem_nil _
  | (name, value) :: members =>
    refine List.forall_mem_cons.mpr ⟨?_, spelledBy_members layout members⟩
    obtain ⟨spaces, hcolon, hspaces⟩ := layout.exists_colon
    have htail : layout.colon.toList.tail = spaces := by rw [hcolon, List.tail_cons]
    exact .before (htail ▸ hspaces) (spelledBy_chars layout value)

end

theorem spelledBy_pretty (j : Json) : j.tree.SpelledBy j.pretty.toList := by
  rw [pretty, toList_printOnto]
  exact j.spelledBy_chars _

theorem spelledBy_compact (j : Json) : j.tree.SpelledBy j.compact.toList := by
  rw [compact, toList_printOnto]
  exact j.spelledBy_chars _

end Json

end ControlStream
