import ControlStream.Proofs.ColorChanges
import ControlStream.Proofs.CommandNumbers

/-!
# Several indexed colors in one command

The argument of the command for indexed colors is a list of pairs: an index, and a color for it or
the query of one. The pairs are taken one at a time, so that one command with all of them does what
as many commands with one pair each do. A color that cannot be read passes over its own pair only;
an index that cannot be read ends the command, with the pairs in front of it obeyed.

## Main definitions

* `ColorPair`: an index with what is said about its color.
* `ColorPair.joined`: the argument that lists pairs.
* `ColorPair.recolorAll`: the colors that pairs leave.
* `ColorPair.answers`: the answers to the queries among pairs.

## Main statements

* `Context.indexedColors_append`: pairs are obeyed one by one.
* `Context.apply_joined`: a command with several pairs does what commands with one pair each do.
-/

namespace ControlStream

open ControlChar

/-- An index and what is said about its color: a color, a query or any other text. -/
structure ColorPair where
  index : UInt8
  numeral : List Char
  isNumber : IsNumber numeral index.toNat
  spec : List Char
  separator_not_mem : ';' ∉ spec

namespace ColorPair

/-- The argument of a command for this pair alone. -/
def text (pair : ColorPair) : List Char := pair.numeral ++ ';' :: pair.spec

/-- The argument of one command for several pairs. -/
def joined (pairs : List ColorPair) : List Char := [';'].intercalate (pairs.map text)

def fields (pair : ColorPair) : List (List Char) := [pair.numeral, pair.spec]

def recolor (p : Palette) (pair : ColorPair) : Palette :=
  match Color.ofSpec? pair.spec with
  | some c => p.set pair.index c
  | none => p

def recolorAll (p : Palette) (pairs : List ColorPair) : Palette := pairs.foldl recolor p

def answer (p : Palette) (pair : ColorPair) : List String :=
  if pair.spec = ['?'] then [(ColorQuery.indexed pair.index).answer p] else []

/-- What is answered to several pairs, each with the color that the pairs in front of it left. -/
def answers (p : Palette) : List ColorPair → List String
  | [] => []
  | pair :: pairs => pair.answer p ++ answers (pair.recolor p) pairs

/-! ### The fields of an argument -/

theorem separator_not_mem_numeral (pair : ColorPair) : ';' ∉ pair.numeral :=
  (isNumber_iff.mp pair.isNumber).not_mem (by decide) (by decide)

theorem fieldsOf_text (pair : ColorPair) : fieldsOf ';' pair.text = pair.fields := by
  rw [text, fieldsOf_append_separator pair.separator_not_mem_numeral,
    fieldsOf_of_not_mem pair.separator_not_mem]
  rfl

theorem fieldsOf_text_append (pair : ColorPair) (s : List Char) :
    fieldsOf ';' (pair.text ++ ';' :: s) = pair.fields ++ fieldsOf ';' s := by
  rw [text, List.append_assoc, List.cons_append,
    fieldsOf_append_separator pair.separator_not_mem_numeral,
    fieldsOf_append_separator pair.separator_not_mem]
  rfl

theorem fieldsOf_joined_append {pairs : List ColorPair} (hne : pairs ≠ []) (s : List Char) :
    fieldsOf ';' (joined pairs ++ ';' :: s) = pairs.flatMap fields ++ fieldsOf ';' s := by
  induction pairs with
  | nil => exact absurd rfl hne
  | cons pair pairs ih =>
    cases pairs with
    | nil => simpa [joined] using pair.fieldsOf_text_append s
    | cons next pairs =>
      have hjoined : joined (pair :: next :: pairs) ++ ';' :: s =
          pair.text ++ ';' :: (joined (next :: pairs) ++ ';' :: s) := by
        simp [joined, List.intercalate_cons_cons]
      have hrest := ih (List.cons_ne_nil _ _)
      rw [hjoined, fieldsOf_text_append, hrest, ← List.append_assoc]
      rfl

/-! ### Colors and answers -/

/-- A query spells no color. -/
theorem recolor_of_query (p : Palette) {pair : ColorPair} (h : pair.spec = ['?']) :
    recolor p pair = p := by
  have hspec : Color.ofSpec? ['?'] = none := by decide
  rw [recolor, h, hspec]

theorem recolor_of_invalid (p : Palette) {pair : ColorPair}
    (h : Color.ofSpec? pair.spec = none) : recolor p pair = p := by
  rw [recolor, h]

/-- A color that is spelled is set. -/
theorem get_recolor (p : Palette) {pair : ColorPair} {c : Color}
    (h : Color.ofSpec? pair.spec = some c) : (recolor p pair).get pair.index = c := by
  rw [recolor, h]
  exact (p.get_set _ _ _).trans ((if_pos rfl).trans (Color.masked_of_ofSpec? h))

/-- A pair concerns no color but its own. -/
theorem agreeBeside_recolor (p : Palette) (pair : ColorPair) :
    p.AgreeBeside (· = .indexed pair.index) (recolor p pair) := by
  unfold recolor
  split
  · rename_i c _
    exact (ColorChange.setIndexed pair.index c).agreeBeside_on p
  · exact .refl _ p

/-- The answer to a query spells the index and the 24 bits of the color in force. -/
theorem answer_of_query (p : Palette) {pair : ColorPair} (h : pair.spec = ['?']) :
    ∃ (c : Rgb) (reply : String), (p.get pair.index).masked = .ofRgb c ∧
      reply.toList = [esc, ']'] ++
        ('4' :: ';' :: Nat.toDigits 10 pair.index.toNat ++ ';' :: c.spelling ++ [bel]) ∧
      pair.answer p = [reply] := by
  refine ⟨(p.get pair.index).toRgb, _, (Color.ofRgb_toRgb _).symm, ?_, if_pos h⟩
  rw [ColorQuery.answer, toList_colorAnswer, ColorQuery.toList_selector_indexed]
  rfl

theorem answers_concat (p : Palette) (front : List ColorPair) (pair : ColorPair) :
    answers p (front ++ [pair]) = answers p front ++ pair.answer (recolorAll p front) := by
  induction front generalizing p with
  | nil => simp [answers, recolorAll]
  | cons first front ih =>
    rw [List.cons_append, answers, answers, ih, List.append_assoc]
    rfl

theorem recolorAll_append (p : Palette) (front back : List ColorPair) :
    recolorAll p (front ++ back) = recolorAll (recolorAll p front) back :=
  List.foldl_append

end ColorPair

namespace Host

variable {σ κ : Type} (a : Host σ κ)

/-- Colors that change and replies that are added, twice. -/
theorem withAnswers_withPalette_append (p q : Palette) (s t : List String) :
    (((a.withPalette p).withAnswers s).withPalette q).withAnswers t =
      (a.withPalette q).withAnswers (s ++ t) := by
  simp [withPalette, withAnswers]

theorem withAnswers_withPalette_nil : (a.withPalette a.store.palette).withAnswers [] = a := by
  simp [withPalette, withAnswers]

end Host

namespace Context

variable {σ κ : Type} (ctx : Context σ κ)

def setColor (ctx : Context σ κ) (pair : ColorPair) : Context σ κ :=
  ctx.indexedColor pair.index pair.spec

/-- Pairs are obeyed one by one. -/
theorem indexedColors_append (pairs : List ColorPair) (fields : List (List Char)) :
    ctx.indexedColors (pairs.flatMap ColorPair.fields ++ fields) =
      (pairs.foldl setColor ctx).indexedColors fields := by
  induction pairs generalizing ctx with
  | nil => rfl
  | cons pair pairs ih =>
    have hindex := parseIndex?_eq_some_iff.mpr pair.isNumber
    have hfields : (pair :: pairs).flatMap ColorPair.fields ++ fields =
        pair.numeral :: pair.spec :: (pairs.flatMap ColorPair.fields ++ fields) := rfl
    rw [hfields, indexedColors, hindex]
    exact ih (ctx.setColor pair)

theorem toHost_setColor (pair : ColorPair) :
    (ctx.setColor pair).toHost =
      (ctx.toHost.withPalette (pair.recolor ctx.store.palette)).withAnswers
        (if ctx.settings.answerColorQueries then pair.answer ctx.store.palette else []) := by
  rw [setColor, indexedColor]
  by_cases hquery : pair.spec = ['?']
  · rw [if_pos hquery, answerColor_eq_withAnswers, ColorPair.recolor_of_query _ hquery,
      ColorPair.answer, if_pos hquery]
    rfl
  · rw [if_neg hquery, ColorPair.answer, if_neg hquery, ite_self, ColorPair.recolor]
    cases Color.ofSpec? pair.spec with
    | none => exact (Host.withAnswers_withPalette_nil _).symm
    | some c => simp [Host.withPalette, Host.withAnswers, modifyPalette, Store.modifyPalette]

theorem toHost_foldl_setColor (pairs : List ColorPair) :
    (pairs.foldl setColor ctx).toHost =
      (ctx.toHost.withPalette (ColorPair.recolorAll ctx.store.palette pairs)).withAnswers
        (if ctx.settings.answerColorQueries then ColorPair.answers ctx.store.palette pairs
          else []) := by
  induction pairs generalizing ctx with
  | nil => exact (ite_self _).symm ▸ (Host.withAnswers_withPalette_nil _).symm
  | cons pair pairs ih =>
    have hsettings : (ctx.setColor pair).settings = ctx.settings :=
      (congrArg Host.settings (ctx.toHost_setColor pair)).trans rfl
    have hpalette : (ctx.setColor pair).store.palette = pair.recolor ctx.store.palette :=
      (congrArg (fun a : Host σ κ => a.store.palette) (ctx.toHost_setColor pair)).trans rfl
    rw [List.foldl_cons, ih, hsettings, hpalette, toHost_setColor,
      Host.withAnswers_withPalette_append, ColorPair.answers]
    congr 1
    split <;> rfl

variable [Clipboard κ]

theorem apply_text (pair : ColorPair) :
    Command.indexedColors.apply pair.text ctx = ctx.setColor pair := by
  have hone := ctx.indexedColors_append [pair] []
  rw [List.flatMap_singleton, List.append_nil] at hone
  rw [Command.apply, pair.fieldsOf_text]
  exact hone

theorem foldl_apply_text (pairs : List ColorPair) :
    pairs.foldl (fun ctx pair => Command.indexedColors.apply pair.text ctx) ctx =
      pairs.foldl setColor ctx := by
  have hsame : (fun (ctx : Context σ κ) (pair : ColorPair) =>
      Command.indexedColors.apply pair.text ctx) = setColor :=
    funext fun ctx => funext fun pair => ctx.apply_text pair
  rw [hsame]

/-- An index that is none ends the command. -/
theorem toHost_apply_of_invalid {index : List Char} (hindex : ';' ∉ index)
    (hnone : ∀ i : UInt8, ¬ IsNumber index i.toNat) (rest : List Char) :
    (Command.indexedColors.apply (index ++ ';' :: rest) ctx).toHost = ctx.toHost := by
  have hread : parseIndex? index = none :=
    Option.eq_none_iff_forall_not_mem.mpr fun i hi => hnone i (parseIndex?_eq_some_iff.mp hi)
  rw [Command.apply, fieldsOf_append_separator hindex]
  cases fieldsOf ';' rest with
  | nil => rfl
  | cons spec fields =>
    rw [indexedColors, hread]
    rfl

/-- An index without a color is left out. -/
theorem apply_of_not_mem {index : List Char} (hindex : ';' ∉ index) :
    Command.indexedColors.apply index ctx = ctx := by
  rw [Command.apply, fieldsOf_of_not_mem hindex]
  rfl

/-- One command with several pairs and something after them does what as many commands with one pair
each do, and then one with what comes after. Each color that can be read is set and no other, each
query is answered once, with its index and the color that the pairs in front of it left, and any
other text is passed over. What comes after the pairs does nothing if it begins with an index that
is none, or if it is an index without a color. -/
theorem apply_joined {pairs : List ColorPair} (hne : pairs ≠ []) (b : List Char) :
    let command := fun (argument : List Char) (ctx : Context σ κ) =>
      Command.indexedColors.apply argument ctx
    let after := pairs.foldl (fun ctx pair => command pair.text ctx) ctx
    let palette := ctx.store.palette
    command (ColorPair.joined pairs ++ ';' :: b) ctx = command b after ∧
    after.toHost =
      (ctx.toHost.withPalette (ColorPair.recolorAll palette pairs)).withAnswers
        (if ctx.settings.answerColorQueries then ColorPair.answers palette pairs else []) ∧
    (∀ front pair back, pairs = front ++ pair :: back →
      let p := ColorPair.recolorAll palette front
      let q := ColorPair.recolorAll palette (front ++ [pair])
      (∀ c, Color.ofSpec? pair.spec = some c →
        p.AgreeBeside (· = .indexed pair.index) q ∧ q.get pair.index = c) ∧
      (Color.ofSpec? pair.spec = none → q = p) ∧
      (pair.spec = ['?'] → ∃ (c : Rgb) (reply : String), (p.get pair.index).masked = .ofRgb c ∧
        reply.toList = [esc, ']'] ++
          ('4' :: ';' :: Nat.toDigits 10 pair.index.toNat ++ ';' :: c.spelling ++ [bel]) ∧
        ColorPair.answers palette (front ++ [pair]) = ColorPair.answers palette front ++ [reply]) ∧
      (pair.spec ≠ ['?'] →
        ColorPair.answers palette (front ++ [pair]) = ColorPair.answers palette front)) ∧
    (∀ index rest, b = index ++ ';' :: rest → ';' ∉ index →
      (∀ i : UInt8, ¬ IsNumber index i.toNat) → (command b after).toHost = after.toHost) ∧
    (';' ∉ b → command b after = after) := by
  intro command after palette
  have hafter : after = pairs.foldl setColor ctx := ctx.foldl_apply_text pairs
  refine ⟨?_, ?_, ?_, ?_, after.apply_of_not_mem⟩
  · calc command (ColorPair.joined pairs ++ ';' :: b) ctx
        = ctx.indexedColors (fieldsOf ';' (ColorPair.joined pairs ++ ';' :: b)) := rfl
      _ = ctx.indexedColors (pairs.flatMap ColorPair.fields ++ fieldsOf ';' b) := by
          rw [ColorPair.fieldsOf_joined_append hne]
      _ = (pairs.foldl setColor ctx).indexedColors (fieldsOf ';' b) :=
          ctx.indexedColors_append pairs _
      _ = command b after := by rw [hafter]; rfl
  · rw [hafter]
    exact ctx.toHost_foldl_setColor pairs
  · intro front pair back _ p q
    have hq : q = ColorPair.recolor p pair := ColorPair.recolorAll_append palette front [pair]
    refine ⟨fun c hc => ?_, fun hnone => ?_, fun hquery => ?_, fun hquery => ?_⟩
    · rw [hq]
      exact ⟨ColorPair.agreeBeside_recolor p pair, ColorPair.get_recolor p hc⟩
    · rw [hq, ColorPair.recolor_of_invalid p hnone]
    · obtain ⟨c, reply, hcolor, hreply, hanswer⟩ := ColorPair.answer_of_query p hquery
      refine ⟨c, reply, hcolor, hreply, ?_⟩
      rw [ColorPair.answers_concat, hanswer]
    · rw [ColorPair.answers_concat, ColorPair.answer, if_neg hquery, List.append_nil]
  · rintro index rest rfl hindex hnone
    exact after.toHost_apply_of_invalid hindex hnone rest

/-- A color that is set and asked for, a text that spells none, an index with a plus sign in front,
and a pair after an index that is none. -/
theorem apply_joined_mixed :
    let ctx : Context Page MemoryClipboard := ⟨(Terminal.onPage (.empty 80) .standard).host, #[]⟩
    let b := "x;#ffffff;4;#ffffff".toList
    ∃ pairs : List ColorPair, pairs ≠ [] ∧
      ColorPair.joined pairs = "1;#102030;1;?;2;zz;+3;rgb:f/0/f".toList ∧
      let whole := Command.indexedColors.apply (ColorPair.joined pairs ++ ';' :: b) ctx
      let after := pairs.foldl (fun ctx pair => Command.indexedColors.apply pair.text ctx) ctx
      whole = Command.indexedColors.apply b after ∧ whole.toHost = after.toHost ∧
      whole.store.palette = (ctx.store.palette.set 1 ⟨0x102030⟩).set 3 ⟨0xFF00FF⟩ ∧
      whole.replies.pending = #["\x1b]4;1;rgb:1010/2020/3030\x07"] := by
  have hreply : (ColorQuery.indexed 1).answer
      ((Terminal.onPage (.empty 80) .standard).store.palette.set 1 ⟨0x102030⟩) =
      "\x1b]4;1;rgb:1010/2020/3030\x07" := by decide +kernel
  intro ctx b
  have hone : IsNumber ['1'] (1 : UInt8).toNat := parseIndex?_eq_some_iff.mp (by decide)
  have htwo : IsNumber ['2'] (2 : UInt8).toNat := parseIndex?_eq_some_iff.mp (by decide)
  have hthree : IsNumber ['+', '3'] (3 : UInt8).toNat := parseIndex?_eq_some_iff.mp (by decide)
  have hnone : ∀ i : UInt8, ¬ IsNumber ['x'] i.toNat := not_isNumber_of_parseIndex? (by decide)
  let pairs : List ColorPair :=
    [⟨1, _, hone, "#102030".toList, by decide⟩, ⟨1, _, hone, ['?'], by decide⟩,
      ⟨2, _, htwo, "zz".toList, by decide⟩, ⟨3, _, hthree, "rgb:f/0/f".toList, by decide⟩]
  have hne : pairs ≠ [] := List.cons_ne_nil _ _
  obtain ⟨hwhole, heffect, -, hinvalid, -⟩ := ctx.apply_joined hne b
  have hhost := hinvalid ['x'] "#ffffff;4;#ffffff".toList rfl (by decide) hnone
  have hsame := (congrArg Context.toHost hwhole).trans hhost
  have htotal := hsame.trans heffect
  refine ⟨pairs, hne, rfl, hwhole, hsame, ?_, ?_⟩
  · refine (congrArg (fun a : Host Page MemoryClipboard => a.store.palette) htotal).trans ?_
    rfl
  · refine (congrArg (fun a : Host Page MemoryClipboard => a.replies.pending) htotal).trans ?_
    exact congrArg (fun reply => #[reply]) hreply

end Context

end ControlStream
