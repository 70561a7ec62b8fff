import Mathlib.Data.List.Induction
import ControlStream.Proofs.ColorAnswers
import ControlStream.Proofs.ColorSpecs
import ControlStream.Proofs.FullReset

/-!
# What becomes of colors

Colors are set and brought back, one, several or all at a time. Whichever way, a color is what the
last change has made of it that concerns it: the color that was set, or the one the palette was made
with. Which changes a command makes can be read off its payload, and does not depend on the colors
that are in force.

## Main definitions

* `ColorChange.lastColor?`: the color that the last change of a color sets, if it sets one.
* `Palette.own?`: the color that a palette holds itself.
* `Settings.colorChanges`: the changes that a payload makes.

## Main statements

* `Palette.own?_onAll`: a color is what the last change has made of it.
* `Host.palette_command`: a command makes the changes of its payload.
-/

namespace ControlStream

/-! ### The last change of a color -/

namespace ColorChange

/-- The color that a change sets. The other changes bring colors back. -/
def color? : ColorChange → Option Color
  | setIndexed _ c | setDefault _ c => some c
  | resetIndexed _ | resetAllIndexed | resetDefault _ => none

/-- A color that is set has 24 bits. -/
def Masked (change : ColorChange) : Prop := ∀ c ∈ change.color?, c.masked = c

instance decidableTouches (change : ColorChange) (query : ColorQuery) :
    Decidable (change.Touches query) :=
  match change, query with
  | setIndexed i _, query | resetIndexed i, query =>
    inferInstanceAs (Decidable (query = .indexed i))
  | setDefault which _, query | resetDefault which, query =>
    inferInstanceAs (Decidable (query = .default which))
  | resetAllIndexed, .indexed i => .isTrue ⟨i, rfl⟩
  | resetAllIndexed, .default _ => .isFalse fun ⟨_, h⟩ => nomatch h

def onAll (changes : List ColorChange) (p : Palette) : Palette :=
  changes.foldl (fun p change => change.on p) p

def last? (changes : List ColorChange) (query : ColorQuery) : Option ColorChange :=
  changes.reverse.find? fun change => change.Touches query

/-- The color that the last change sets that concerns a color. There is none if this change brings
the color back, and none if there is no such change. -/
def lastColor? (changes : List ColorChange) (query : ColorQuery) : Option Color :=
  (last? changes query).bind color?

def resets : List ColorChange :=
  [resetAllIndexed, resetDefault .foreground, resetDefault .background]

theorem onAll_append (changes more : List ColorChange) (p : Palette) :
    onAll (changes ++ more) p = onAll more (onAll changes p) :=
  List.foldl_append

theorem onAll_resets (p : Palette) : onAll resets p = p.reset := rfl

theorem initial_onAll (changes : List ColorChange) (p : Palette) :
    (onAll changes p).initial = p.initial := by
  induction changes generalizing p with
  | nil => rfl
  | cons change changes ih => exact (ih (change.on p)).trans (change.initial_on p)

theorem lastColor?_concat (changes : List ColorChange) (change : ColorChange) (query : ColorQuery) :
    lastColor? (changes ++ [change]) query =
      if change.Touches query then change.color? else lastColor? changes query := by
  unfold lastColor? last?
  rw [List.reverse_append, List.reverse_singleton, List.singleton_append, List.find?_cons]
  split <;> simp_all

end ColorChange

namespace Palette

/-- The color that a palette holds itself. Defaults may be left to the indexed colors. -/
def own? (p : Palette) : ColorQuery → Option Color
  | .indexed i => some (p.get i)
  | .default which => p.default? which

/-- A change sets or brings back the colors it concerns, and no others. -/
theorem own?_on (p : Palette) {change : ColorChange} (hmasked : change.Masked)
    (query : ColorQuery) :
    (change.on p).own? query =
      if change.Touches query then change.color?.or (p.reset.own? query) else p.own? query := by
  by_cases htouches : change.Touches query
  · rw [if_pos htouches]
    cases change with
    | setIndexed i c =>
      cases htouches
      exact congrArg some ((p.get_set i i c).trans ((if_pos rfl).trans (hmasked c rfl)))
    | resetIndexed i =>
      cases htouches
      exact congrArg some ((p.get_resetIndexed i i).trans (if_pos rfl))
    | resetAllIndexed =>
      obtain ⟨i, rfl⟩ := htouches
      rfl
    | setDefault which c =>
      cases htouches
      have hc : some c.masked = some c := congrArg some (hmasked c rfl)
      cases which <;> exact hc
    | resetDefault which =>
      cases htouches
      cases which <;> rfl
  · rw [if_neg htouches]
    have hbeside := change.agreeBeside_on p
    cases query with
    | indexed i => exact congrArg some (hbeside.indexed i htouches)
    | default which => exact hbeside.default which htouches

/-- A color is what the last change has made of it, or else the one the palette was made with. -/
theorem own?_onAll (p : Palette) {changes : List ColorChange}
    (hmasked : ∀ change ∈ changes, change.Masked) (query : ColorQuery) :
    (ColorChange.onAll changes p.reset).own? query =
      (ColorChange.lastColor? changes query).or (p.reset.own? query) := by
  -- The last change is the one at the end, which decides unless it concerns other colors.
  induction changes using List.reverseRecOn with
  | nil => rfl
  | append_singleton changes change ih =>
    rw [List.forall_mem_append, List.forall_mem_singleton] at hmasked
    have hreset : (ColorChange.onAll changes p.reset).reset = p.reset := by
      rw [reset_eq, reset_eq, ColorChange.initial_onAll]
    rw [ColorChange.onAll_append, ColorChange.lastColor?_concat]
    refine (own?_on _ hmasked.2 query).trans ?_
    rw [hreset, ih hmasked.1]
    split <;> rfl

variable (p : Palette) {changes : List ColorChange}
  (hmasked : ∀ change ∈ changes, change.Masked)
include hmasked

theorem get_onAll (i : UInt8) :
    (ColorChange.onAll changes p.reset).get i =
      (ColorChange.lastColor? changes (.indexed i)).getD (p.reset.get i) := by
  have hown := p.own?_onAll hmasked (.indexed i)
  rw [own?, own?, Option.or_some] at hown
  exact Option.some.inj hown

/-- A default color that was not set is the one the palette was made with, or else left to the
indexed color in force. -/
theorem default_onAll (which : DefaultColor) (fallback : Color) :
    ((ColorChange.onAll changes p.reset).default? which).getD fallback =
      ((ColorChange.lastColor? changes (.default which)).or (p.reset.default? which)).getD
        fallback :=
  congrArg (Option.getD · fallback) (p.own?_onAll hmasked (.default which))

end Palette

/-! ### The changes of a command -/

/-- The changes that pairs of an index and a color make, up to the first index that is none. -/
def indexedChanges : List (List Char) → List ColorChange
  | index :: spec :: fields =>
    match Context.parseIndex? index with
    | none => []
    | some i => ((Color.ofSpec? spec).map (.setIndexed i)).toList ++ indexedChanges fields
  | _ => []

def Command.colorChanges (argument : List Char) : Command → List ColorChange
  | indexedColors => indexedChanges (fieldsOf ';' argument)
  | defaultColor which => ((Color.ofSpec? argument).map (.setDefault which)).toList
  | resetIndexed =>
    if argument = [] then [.resetAllIndexed]
    else (fieldsOf ';' argument).filterMap fun index =>
      (Context.parseIndex? index).map .resetIndexed
  | resetDefault which => [.resetDefault which]
  | windowTitle | iconTitle | workdir | hyperlink | selection => []

def Settings.colorChanges (settings : Settings) (payload : List Char) : List ColorChange :=
  match cutAt? ';' payload with
  | none => []
  | some (selector, argument) =>
    if payload.length ≤ settings.commandLimit.toNat then
      (Command.ofSelector? selector).elim [] (·.colorChanges argument)
    else []

/-- Colors that are spelled have 24 bits. -/
theorem Color.masked_of_ofSpec? {spec : List Char} {c : Color} (h : Color.ofSpec? spec = some c) :
    c.masked = c := by
  obtain ⟨rgb, -, rfl⟩ := ofSpec?_eq_some_iff.mp h
  exact masked_ofRgb rgb

theorem masked_of_mem_map {spec : List Char} {set : Color → ColorChange}
    (hset : ∀ c, (set c).color? = some c) {change : ColorChange}
    (h : change ∈ ((Color.ofSpec? spec).map set).toList) : change.Masked := by
  obtain ⟨c, hc, rfl⟩ := Option.map_eq_some_iff.mp (Option.mem_toList.mp h)
  intro d hd
  rw [hset] at hd
  cases hd
  exact Color.masked_of_ofSpec? hc

theorem masked_of_mem_indexedChanges {fields : List (List Char)} {change : ColorChange}
    (h : change ∈ indexedChanges fields) : change.Masked := by
  fun_induction indexedChanges fields with
  | case1 => cases h
  | case2 index spec fields i hi ih =>
    rcases List.mem_append.mp h with h | h
    · exact masked_of_mem_map (fun _ => rfl) h
    · exact ih h
  | case3 => cases h

theorem Command.masked_of_mem_colorChanges {argument : List Char} {command : Command}
    {change : ColorChange} (h : change ∈ command.colorChanges argument) : change.Masked := by
  cases command with
  | windowTitle | iconTitle | workdir | hyperlink | selection => cases h
  | indexedColors => exact masked_of_mem_indexedChanges h
  | defaultColor which => exact masked_of_mem_map (fun _ => rfl) h
  | resetDefault which =>
    cases List.mem_singleton.mp h
    exact nofun
  | resetIndexed =>
    simp only [colorChanges] at h
    split at h
    · cases List.mem_singleton.mp h
      exact nofun
    · obtain ⟨index, -, hchange⟩ := List.mem_filterMap.mp h
      obtain ⟨i, -, rfl⟩ := Option.map_eq_some_iff.mp hchange
      exact nofun

theorem Settings.masked_of_mem_colorChanges {settings : Settings} {payload : List Char}
    {change : ColorChange} (h : change ∈ settings.colorChanges payload) : change.Masked := by
  unfold colorChanges at h
  split at h
  · cases h
  · split at h
    · rename_i selector argument _ _
      cases hcommand : Command.ofSelector? selector with
      | none =>
        rw [hcommand] at h
        cases h
      | some command =>
        rw [hcommand] at h
        exact command.masked_of_mem_colorChanges h
    · cases h

/-! ### What a command does to the colors -/

open ColorChange (onAll onAll_append)

namespace Context

variable {σ κ : Type} (ctx : Context σ κ)

theorem palette_answerColor (selector : String) (c : Color) :
    (ctx.answerColor selector c).store.palette = ctx.store.palette := by
  have hanswers := ctx.answerColor_eq_withAnswers selector c
  exact (congrArg (fun a : Host σ κ => a.store.palette) hanswers).trans rfl

theorem palette_indexedColor (i : UInt8) (spec : List Char) :
    (ctx.indexedColor i spec).store.palette =
      onAll ((Color.ofSpec? spec).map (.setIndexed i)).toList ctx.store.palette := by
  unfold indexedColor
  split
  · rename_i hquery
    have hspec : Color.ofSpec? ['?'] = none := by decide
    rw [hquery, hspec, palette_answerColor]
    rfl
  · cases Color.ofSpec? spec <;> rfl

theorem palette_indexedColors (fields : List (List Char)) :
    (ctx.indexedColors fields).store.palette = onAll (indexedChanges fields) ctx.store.palette := by
  induction ctx, fields using indexedColors.induct with
  | case1 ctx index spec fields hindex =>
    simp only [indexedColors, indexedChanges, hindex]
    rfl
  | case2 ctx index spec fields i hindex ih =>
    simp only [indexedColors, indexedChanges, hindex]
    rw [ih, palette_indexedColor, onAll_append]
  | case3 fields ctx hfields =>
    rw [indexedColors.eq_2 _ _ hfields, indexedChanges.eq_2 _ hfields]
    rfl

theorem palette_defaultColor (which : DefaultColor) (spec : List Char) :
    (ctx.defaultColor which spec).store.palette =
      onAll ((Color.ofSpec? spec).map (.setDefault which)).toList ctx.store.palette := by
  unfold defaultColor
  cases Color.ofSpec? spec with
  | some c => rfl
  | none =>
    refine (palette_answerColor _ _ _).trans ?_
    split <;> rfl

theorem palette_foldl_resetIndexed (fields : List (List Char)) :
    (fields.foldl resetIndexed ctx).store.palette =
      onAll (fields.filterMap fun index => (parseIndex? index).map .resetIndexed)
        ctx.store.palette := by
  induction fields generalizing ctx with
  | nil => rfl
  | cons index fields ih =>
    rw [List.foldl_cons, ih]
    cases hindex : parseIndex? index with
    | none => simp only [resetIndexed, hindex, List.filterMap_cons, Option.map_none, log]
    | some i =>
      simp only [resetIndexed, hindex, List.filterMap_cons, Option.map_some]
      rfl

variable [Clipboard κ]

theorem palette_apply (command : Command) (argument : List Char) :
    (command.apply argument ctx).store.palette =
      onAll (command.colorChanges argument) ctx.store.palette := by
  cases command with
  | windowTitle | iconTitle | workdir | hyperlink | resetDefault => rfl
  | indexedColors => exact ctx.palette_indexedColors _
  | defaultColor which => exact ctx.palette_defaultColor which argument
  | selection =>
    obtain ⟨clipboard, hselection⟩ := ctx.exists_clipboard_selection argument
    exact (congrArg (fun a : Host σ κ => a.store.palette) hselection).trans rfl
  | resetIndexed =>
    simp only [Command.apply, Command.colorChanges]
    split
    · rfl
    · exact ctx.palette_foldl_resetIndexed _

/-- A payload makes its changes. The limit that does not apply to clipboard writes applies to all
that changes a color. -/
theorem palette_applyPayload (payload : List Char) :
    (ctx.applyPayload payload).store.palette =
      onAll (ctx.settings.colorChanges payload) ctx.store.palette := by
  unfold applyPayload Settings.colorChanges
  cases cutAt? ';' payload with
  | none => rfl
  | some parts =>
    obtain ⟨selector, argument⟩ := parts
    simp only
    by_cases hshort : payload.length ≤ ctx.settings.commandLimit.toNat
    · rw [if_pos hshort, if_neg fun h => Nat.not_lt.mpr hshort h.2]
      cases Command.ofSelector? selector with
      | none => rfl
      | some command => exact ctx.palette_apply command argument
    · rw [if_neg hshort]
      by_cases hselector : selector = selectionSelector
      · subst hselector
        rw [if_neg fun h => h.1 rfl]
        exact ctx.palette_apply .selection argument
      · rw [if_pos ⟨hselector, Nat.lt_of_not_le hshort⟩]
        rfl

end Context

/-- A command makes the changes of its payload. One that is too long to be kept makes none. -/
theorem Host.palette_command {σ κ : Type} [Clipboard κ] (a : Host σ κ) (payload : List Char) :
    (a.command payload).store.palette =
      onAll (a.settings.colorChanges payload) a.store.palette := by
  unfold command
  split
  · rename_i hlong
    have hlimit : a.settings.commandLimit.toNat ≤ a.settings.payloadLimit := Nat.le_max_left _ _
    have hnone : a.settings.colorChanges payload = [] := by
      unfold Settings.colorChanges
      split
      · rfl
      · exact if_neg (by omega)
    rw [hnone]
    rfl
  · exact Context.palette_applyPayload _ payload

end ControlStream
