import ControlStream.Proofs.Commands
import ControlStream.Proofs.Numerals

/-!
# The numbers in commands

A command is chosen by a number, and the commands for indexed colors contain further ones. All of
them are decimal numerals: rows of digits, zeros in front included, that may follow a plus sign. A
command without such a number is unknown and does nothing. An index that is none ends the command
that sets indexed colors, and is passed over by the one that brings them back.

## Main definitions

* `Context.SetsColors`, `Context.ResetsColors`: what the fields of the commands for indexed colors
  do.
* `Context.Obeys`: what a command does with its argument.
* `Context.Dispatches`: what a payload does.

## Main statements

* `Context.dispatches_applyPayload`: a payload does what its numbers say.
* `Terminal.Reachable.command_numbers`: so does every command of a stream.
-/

namespace ControlStream

open ControlChar

/-! ### What the numbers decide -/

namespace Context

variable {σ κ : Type}

/-- Fields are taken in pairs of an index and a color, up to the first index that is none. -/
inductive SetsColors : Context σ κ → List (List Char) → Context σ κ → Prop
  | done (a : Context σ κ) : a.SetsColors [] a
  | odd (a : Context σ κ) (field : List Char) : a.SetsColors [field] a
  | color {a b : Context σ κ} {index : List Char} {i : UInt8} (hi : IsNumber index i.toNat)
      {spec : List Char} {fields : List (List Char)}
      (hrest : (a.indexedColor i spec).SetsColors fields b) :
    a.SetsColors (index :: spec :: fields) b
  | invalid (a : Context σ κ) {index : List Char} (hi : ∀ i : UInt8, ¬ IsNumber index i.toNat)
      (spec : List Char) (fields : List (List Char)) :
    a.SetsColors (index :: spec :: fields) (a.log (.invalidIndex 4 (String.ofList index)))

/-- Each field is an index on its own, or is passed over. -/
inductive ResetsColors : Context σ κ → List (List Char) → Context σ κ → Prop
  | done (a : Context σ κ) : a.ResetsColors [] a
  | color {a b : Context σ κ} {index : List Char} {i : UInt8} (hi : IsNumber index i.toNat)
      {fields : List (List Char)}
      (hrest : (a.modifyPalette (·.resetIndexed i)).ResetsColors fields b) :
    a.ResetsColors (index :: fields) b
  | invalid {a b : Context σ κ} {index : List Char} (hi : ∀ i : UInt8, ¬ IsNumber index i.toNat)
      {fields : List (List Char)}
      (hrest : (a.log (.invalidIndex 104 (String.ofList index))).ResetsColors fields b) :
    a.ResetsColors (index :: fields) b

variable [Clipboard κ]

inductive Obeys (a : Context σ κ) (argument : List Char) : Command → Context σ κ → Prop
  | indexedColors {b : Context σ κ} (h : a.SetsColors (fieldsOf ';' argument) b) :
    a.Obeys argument .indexedColors b
  | resetAllIndexed (h : argument = []) :
    a.Obeys argument .resetIndexed (a.modifyPalette .resetAllIndexed)
  | resetIndexed {b : Context σ κ} (hne : argument ≠ [])
      (h : a.ResetsColors (fieldsOf ';' argument) b) : a.Obeys argument .resetIndexed b
  /-- There are no other numbers in the argument of another command. -/
  | other {command : Command} (hset : command ≠ .indexedColors) (hreset : command ≠ .resetIndexed) :
    a.Obeys argument command (command.apply argument a)

inductive Dispatches (a : Context σ κ) : List Char → Context σ κ → Prop
  | withoutArgument {payload : List Char} (h : ';' ∉ payload) :
    a.Dispatches payload (a.log (.commandWithoutArgument (String.ofList payload)))
  | tooLong {selector argument : List Char} (hselector : ';' ∉ selector)
      (hgeneral : selector ≠ selectionSelector)
      (hlong : a.settings.commandLimit.toNat < (selector ++ ';' :: argument).length) :
    a.Dispatches (selector ++ ';' :: argument)
      (a.log (.commandTooLong (String.ofList selector) a.settings.commandLimit.toNat))
  | unknown {selector argument : List Char} (hselector : ';' ∉ selector)
      (hnumber : ∀ n ≤ 65535, IsNumber selector n → Command.ofNumber? n = none) :
    a.Dispatches (selector ++ ';' :: argument) (a.log (.unknownCommand (String.ofList selector)))
  | command {selector argument : List Char} (hselector : ';' ∉ selector) {n : Nat}
      (hle : n ≤ 65535) (hnumber : IsNumber selector n) {command : Command}
      (hcommand : Command.ofNumber? n = some command) {b : Context σ κ}
      (hobeys : a.Obeys argument command b) : a.Dispatches (selector ++ ';' :: argument) b

end Context

/-! ### Numbers that are read -/

theorem parseNat?_eq_some_iff_isNumber {bound n : Nat} {s : List Char} :
    parseNat? bound s = some n ↔ IsNumber s n ∧ n ≤ bound := by
  rw [parseNat?_eq_some_iff, isNumber_iff]

namespace Context

theorem parseIndex?_eq_some_iff {s : List Char} {i : UInt8} :
    parseIndex? s = some i ↔ IsNumber s i.toNat := by
  have hi := i.toNat_lt
  rw [parseIndex?, Option.map_eq_some_iff]
  constructor
  · rintro ⟨n, hread, rfl⟩
    obtain ⟨hnumber, hle⟩ := parseNat?_eq_some_iff_isNumber.mp hread
    rwa [UInt8.toNat_ofNat_of_lt' (Nat.lt_succ_of_le hle)]
  · intro hnumber
    exact ⟨_, parseNat?_eq_some_iff_isNumber.mpr ⟨hnumber, by omega⟩, UInt8.ofNat_toNat⟩

theorem not_isNumber_of_parseIndex? {s : List Char} (h : parseIndex? s = none) (i : UInt8) :
    ¬ IsNumber s i.toNat := by
  rw [← parseIndex?_eq_some_iff, h]
  simp

variable {σ κ : Type}

theorem setsColors_indexedColors (a : Context σ κ) (fields : List (List Char)) :
    a.SetsColors fields (a.indexedColors fields) := by
  fun_induction indexedColors a fields with
  | case1 a index spec fields hindex =>
    exact .invalid a (not_isNumber_of_parseIndex? hindex) spec fields
  | case2 a index spec fields i hindex ih => exact .color (parseIndex?_eq_some_iff.mp hindex) ih
  | case3 fields a hfields =>
    match fields, hfields with
    | [], _ => exact .done a
    | [field], _ => exact .odd a field
    | index :: spec :: fields, hfields => exact absurd rfl (hfields index spec fields)

theorem resetsColors_foldl (a : Context σ κ) (fields : List (List Char)) :
    a.ResetsColors fields (fields.foldl resetIndexed a) := by
  induction fields generalizing a with
  | nil => exact .done a
  | cons index fields ih =>
    rw [List.foldl_cons]
    cases hindex : parseIndex? index with
    | none =>
      have hstep : a.resetIndexed index = a.log (.invalidIndex 104 (String.ofList index)) := by
        simp only [resetIndexed, hindex]
      rw [hstep]
      exact .invalid (not_isNumber_of_parseIndex? hindex) (ih _)
    | some i =>
      have hstep : a.resetIndexed index = a.modifyPalette (·.resetIndexed i) := by
        simp only [resetIndexed, hindex]
      rw [hstep]
      exact .color (parseIndex?_eq_some_iff.mp hindex) (ih _)

variable [Clipboard κ]

theorem obeys_apply (a : Context σ κ) (argument : List Char) (command : Command) :
    a.Obeys argument command (command.apply argument a) := by
  by_cases hset : command = .indexedColors
  · subst hset
    exact .indexedColors (a.setsColors_indexedColors _)
  · by_cases hreset : command = .resetIndexed
    · subst hreset
      by_cases hargument : argument = []
      · rw [Command.apply, if_pos hargument]
        exact .resetAllIndexed hargument
      · rw [Command.apply, if_neg hargument]
        exact .resetIndexed hargument (a.resetsColors_foldl _)
    · exact .other hset hreset

/-- A payload does what its numbers say. -/
theorem dispatches_applyPayload (a : Context σ κ) (payload : List Char) :
    a.Dispatches payload (a.applyPayload payload) := by
  unfold applyPayload
  split
  · rename_i hcut
    exact .withoutArgument (cutAt?_eq_none_iff.mp hcut)
  · rename_i selector argument hcut
    obtain ⟨rfl, hselector⟩ := cutAt?_eq_some_iff.mp hcut
    split
    · rename_i hlong
      exact .tooLong hselector hlong.1 hlong.2
    · split
      · rename_i command hcommand
        obtain ⟨n, hread, hn⟩ := Option.bind_eq_some_iff.mp hcommand
        obtain ⟨hnumber, hle⟩ := parseNat?_eq_some_iff_isNumber.mp hread
        exact .command hselector hle hnumber hn (a.obeys_apply argument command)
      · rename_i hnone
        refine .unknown hselector fun n hle hnumber => ?_
        have hread := parseNat?_eq_some_iff_isNumber.mpr ⟨hnumber, hle⟩
        rwa [Command.ofSelector?, hread] at hnone

/-- A payload that does anything has a number. -/
theorem Dispatches.exists_number {a b : Context σ κ} {payload : List Char}
    (h : a.Dispatches payload b) (hne : b.toHost ≠ a.toHost) :
    ∃ selector argument n, payload = selector ++ ';' :: argument ∧ ';' ∉ selector ∧ n ≤ 65535 ∧
      IsNumber selector n := by
  cases h with
  | withoutArgument | tooLong | unknown => exact absurd rfl hne
  | command hselector hle hnumber => exact ⟨_, _, _, rfl, hselector, hle, hnumber⟩

end Context

namespace Terminal

variable {σ κ : Type} [Screen σ] [Clipboard κ] {t : Terminal σ κ} {rest whole : List Char}
  {interrupt : Option Char} {pieces : List (List Char)}

/-- Once a command that is being read has come to its end, the host is what the command leaves, or
what the escape sequence that interrupts it makes of that. -/
theorem AtRest.host_writeAll_commandEnd (h : t.AtRest) (hstate : t.state = .command)
    (hends : t.interpreter.command.payload.stage.Ends rest whole interrupt)
    (hpieces : pieces.flatten = whole) :
    (t.writeAll pieces).host =
      (({ t with host := (t.progress.commandEnd rest).context.toHost }).fresh.write
        (interruption interrupt)).host := by
  subst hpieces
  have hleads := Progress.leadsTo_commandEnd (x := t.progress) hstate h.textDone hends
  have hlimit := Progress.afterString_commandEnd_withLimit (x := t.progress) hstate h.textDone
    h.tidy rest interrupt 0
  have hhost := congrArg (fun x : Progress σ κ => x.context.toHost) hlimit
  rw [h.writeAll_of_leadsTo hleads]
  refine hhost.trans ?_
  generalize (t.progress.commandEnd rest).context = ctx
  -- A new interpreter differs from the one that has read the command in its limit and events only.
  have hfresh := atRest_fresh { t with host := ctx.toHost }
  have hbegin := Progress.leadsTo_interruption (x := ({ t with host := ctx.toHost }).fresh.progress)
    (hfresh.idle rfl) interrupt
  have hsame : (Progress.afterString ⟨.initial, ctx⟩ interrupt).Same
      (({ t with host := ctx.toHost }).fresh.progress.afterString interrupt) := by
    apply Progress.Same.afterString
    · exact ⟨rfl, rfl⟩
    · exact ⟨by simp [Interpreter.initial], rfl⟩
  rw [← List.flatten_singleton (l := interruption interrupt)] at hbegin
  exact hsame.host.trans (congrArg host (hfresh.writeAll_of_leadsTo hbegin)).symm

/-- A command of a stream has an effect only if its selector is a number, and does what this number
and those in its argument say. Numbers are rows of decimal digits, with a plus sign in front or not.
With any other selector it is unknown, and any other index is invalid. -/
theorem Reachable.command_numbers (h : t.Reachable) (hstate : t.state = .command)
    (hends : t.interpreter.command.payload.stage.Ends rest whole interrupt)
    (hpieces : pieces.flatten = whole) :
    let payload := t.interpreter.command.payload.chars ++ rest
    ∃ b : Host σ κ,
      (t.writeAll pieces).host =
        (({ t with host := b }).fresh.write (interruption interrupt)).host ∧
      (b ≠ t.host → ∃ selector argument n, payload = selector ++ ';' :: argument ∧
        ';' ∉ selector ∧ n ≤ 65535 ∧ IsNumber selector n) ∧
      (t.Overflows rest → b = t.host) ∧
      (¬ t.Overflows rest → ∃ events, (Context.mk t.host #[]).Dispatches payload ⟨b, events⟩) := by
  intro payload
  have hlong : t.Overflows rest → (t.progress.commandEnd rest).context.toHost = t.host :=
    toHost_commandEnd_of_overflows h.atRest
  have hshort (hshort : ¬ t.Overflows rest) : ∃ events, (Context.mk t.host #[]).Dispatches payload
      ⟨(t.progress.commandEnd rest).context.toHost, events⟩ := by
    rw [toHost_commandEnd_of_not_overflows h.atRest hshort]
    exact ⟨_, (Context.mk t.host #[]).dispatches_applyPayload payload⟩
  refine ⟨_, h.atRest.host_writeAll_commandEnd hstate hends hpieces, fun hne => ?_, hlong, hshort⟩
  obtain ⟨events, hdispatches⟩ := hshort (mt hlong hne)
  exact hdispatches.exists_number hne

/-- Two indexed colors, the selector with a zero and the second index with a plus sign in front. -/
theorem command_numbers_indexed :
    let t := (onPage (.empty 80) .standard).write "\x1b]04;1;#102".toList
    let rest := "030;+2;#040506".toList
    t.Reachable ∧ t.state = .command ∧
      t.interpreter.command.payload.stage.Ends rest (rest ++ [bel]) none ∧
      ∃ (b : Host Page MemoryClipboard) (events : Array Event),
        (t.writeAll [rest ++ [bel]]).host = (({ t with host := b }).fresh.write []).host ∧
        (Context.mk t.host #[]).Dispatches "04;1;#102030;+2;#040506".toList ⟨b, events⟩ := by
  have hstart : (onPage (.empty 80) .standard).Reachable := .onScreen _ _ _
  have hreachable := hstart.write "\x1b]04;1;#102".toList
  intro t rest
  have hstate : t.state = .command := by
    rw [state, show t = _ from write_eq hstart.atRest _]
    rfl
  have hpayload : t.interpreter.command.payload = ⟨"04;1;#102".toList.toArray, 9,
      Settings.standard.payloadLimit, false, false, none, false⟩ := by
    rw [show t = _ from write_eq hstart.atRest _]
    rfl
  have hends : t.interpreter.command.payload.stage.Ends rest (rest ++ [bel]) none := by
    rw [hpayload]
    exact .terminated (e := [bel]) (by decide) (by decide)
  have hshort : ¬ t.Overflows rest := by
    rw [Overflows, hpayload, show t = _ from write_eq hstart.atRest _]
    decide
  obtain ⟨b, hhost, -, -, hdispatches⟩ :=
    hreachable.command_numbers hstate hends List.flatten_singleton
  obtain ⟨events, hdispatches⟩ := hdispatches hshort
  rw [hpayload] at hdispatches
  exact ⟨hreachable, hstate, hends, b, events, hhost, hdispatches⟩

/-- A selector that is no row of digits chooses a command all the same. -/
theorem command_numbers_plus :
    let t := onPage (.empty 80) .standard
    t.Reachable ∧ t.state = .ready ∧ (∀ n, ¬ IsNumeral decimalDigit? 10 false "+2".toList n) ∧
      t.title? = none ∧ (t.write "\x1b]+2;t\x07".toList).title? = some "t" := by
  have hreachable : (onPage (.empty 80) .standard).Reachable := .onScreen _ _ _
  refine ⟨hreachable, rfl, ?_, rfl, ?_⟩
  · intro n hnumeral
    exact absurd (hnumeral.plus_not_mem (by decide)) (by decide)
  · rw [write_eq hreachable.atRest]
    rfl

end Terminal

end ControlStream
