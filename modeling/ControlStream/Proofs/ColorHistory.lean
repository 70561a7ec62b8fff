import Mathlib.Data.List.Perm.Basic
import ControlStream.Proofs.ColorChanges
import ControlStream.Proofs.Framing
import ControlStream.Proofs.Replies

/-!
# The colors that a stream leaves

Colors change where a command of the stream ends, and where a full reset does. The stream alone
says where that is, so the colors in force are known from it and from the settings: each is the one
that was set last, unless it was brought back since, and then it is the configured one. There are
two ways to bring back all colors, and they leave the same palette.

## Main definitions

* `Framing.resets`: a character completes a full reset.
* `Settings.colorChangesOf`: the changes that a stream makes.
* `WrittenCommand`: a command as it is written.

## Main statements

* `Progress.palette_tick`: what a character does to the colors.
* `Terminal.AtRest.palette_writeAll`: what a stream does to them.
* `Terminal.palette_history`: the colors in force, and what resets make of them.
-/

namespace ControlStream

open ControlChar
open ColorChange (onAll onAll_append)

/-! ### The changes of a stream -/

/-- A character completes a full reset. The ESC in front of it may be the one that interrupted a
string. -/
def Framing.resets : Framing → Char → Bool
  | escape true, c | string _ true, c => c == 'c'
  | _, _ => false

namespace Settings

/-- The changes that are made where a character is read: those of the command that it ends, and
then those of the full reset that it completes. -/
def colorChangesAt (settings : Settings) (f : Framing) (c : Char) : List ColorChange :=
  (f.ended? c).toList.flatMap settings.colorChanges ++ if f.resets c then ColorChange.resets else []

def colorChangesFrom (settings : Settings) : Framing → List Char → List ColorChange
  | _, [] => []
  | f, c :: s => settings.colorChangesAt f c ++ settings.colorChangesFrom (f.next c) s

def colorChangesOf (settings : Settings) (s : List Char) : List ColorChange :=
  settings.colorChangesFrom .ground s

variable (settings : Settings)

theorem masked_of_mem_colorChangesFrom {f : Framing} {s : List Char} {change : ColorChange}
    (h : change ∈ settings.colorChangesFrom f s) : change.Masked := by
  induction s generalizing f with
  | nil => cases h
  | cons c s ih =>
    rw [colorChangesFrom, List.mem_append, colorChangesAt, List.mem_append] at h
    rcases h with (h | h) | h
    · obtain ⟨payload, -, hpayload⟩ := List.mem_flatMap.mp h
      exact masked_of_mem_colorChanges hpayload
    · split at h
      · have hresets : ∀ change ∈ ColorChange.resets, change.color? = none := by decide
        intro c hc
        rw [hresets change h] at hc
        cases hc
      · cases h
    · exact ih h

theorem colorChangesFrom_append (f : Framing) (s t : List Char) :
    settings.colorChangesFrom f (s ++ t) =
      settings.colorChangesFrom f s ++ settings.colorChangesFrom (s.foldl Framing.next f) t := by
  induction s generalizing f with
  | nil => rfl
  | cons c s ih =>
    rw [List.cons_append, colorChangesFrom, colorChangesFrom, ih, List.append_assoc]
    rfl

/-- Wherever it stands, ESC and `c` end with a full reset. -/
theorem exists_colorChangesFrom_reset (f : Framing) :
    ∃ front, settings.colorChangesFrom f [esc, 'c'] = front ++ ColorChange.resets := by
  have hresets : (f.next esc).resets 'c' = true := by
    cases f with
    | ground | escape | control => rfl
    | string command? escaped => cases escaped <;> rfl
  refine ⟨settings.colorChangesAt f esc ++
    ((f.next esc).ended? 'c').toList.flatMap settings.colorChanges, ?_⟩
  rw [colorChangesFrom, colorChangesFrom, colorChangesFrom, List.append_nil, colorChangesAt,
    colorChangesAt, hresets, if_pos rfl, List.append_assoc, List.append_assoc, List.append_assoc]

theorem colorChangesFrom_payload {payload : List Char} (hpayload : IsPayload payload)
    (front s : List Char) :
    settings.colorChangesFrom (.string (some front) false) (payload ++ s) =
      settings.colorChangesFrom (.string (some (front ++ payload)) false) s := by
  induction payload generalizing front with
  | nil => rw [List.append_nil, List.nil_append]
  | cons c payload ih =>
    rw [IsPayload, List.forall_mem_cons] at hpayload
    obtain ⟨⟨hbel, hst, hesc⟩, hrest⟩ := hpayload
    have hnext : (Framing.string (some front) false).next c =
        .string (some (front ++ [c])) false := by
      simp only [Framing.next, hbel, hst, hesc, or_self, if_false, Option.map_some]
    have hnone : (Framing.string (some front) false).ended? c = none := by
      simp only [Framing.ended?, hbel, hst, or_self, if_false]
    rw [List.cons_append, colorChangesFrom, colorChangesAt, hnext, hnone, ih hrest,
      List.append_cons front c payload]
    rfl

/-- A command makes its changes and leaves the rest of the stream to itself. -/
theorem colorChangesFrom_command {i payload e : List Char} (hi : i ∈ commandIntroducers)
    (hpayload : IsPayload payload) (he : e ∈ stringTerminators) (s : List Char) :
    settings.colorChangesFrom .ground (i ++ (payload ++ (e ++ s))) =
      settings.colorChanges payload ++ settings.colorChangesFrom .ground s := by
  have hopen : ∀ s, settings.colorChangesFrom .ground (i ++ s) =
      settings.colorChangesFrom (.string (some []) false) s := by
    simp only [commandIntroducers, List.mem_cons, List.not_mem_nil, or_false] at hi
    rcases hi with rfl | rfl <;> exact fun _ => rfl
  have hclose : settings.colorChangesFrom (.string (some payload) false) (e ++ s) =
      (settings.colorChanges payload ++ []) ++ settings.colorChangesFrom .ground s := by
    simp only [stringTerminators, List.mem_cons, List.not_mem_nil, or_false] at he
    rcases he with rfl | rfl | rfl
    · exact congrArg (· ++ _) (List.append_nil _)
    · exact congrArg (· ++ _) (List.append_nil _)
    · exact congrArg (· ++ settings.colorChangesFrom .ground s) (List.append_nil _)
  rw [hopen, colorChangesFrom_payload settings hpayload, List.nil_append, hclose, List.append_nil]

end Settings

structure WrittenCommand where
  introducer : List Char
  payload : List Char
  terminator : List Char
  introducer_mem : introducer ∈ commandIntroducers
  isPayload : IsPayload payload
  terminator_mem : terminator ∈ stringTerminators

def WrittenCommand.text (command : WrittenCommand) : List Char :=
  command.introducer ++ (command.payload ++ command.terminator)

theorem Settings.colorChangesOf_commands (settings : Settings) (commands : List WrittenCommand) :
    settings.colorChangesOf (commands.flatMap WrittenCommand.text) =
      (commands.map WrittenCommand.payload).flatMap settings.colorChanges := by
  induction commands with
  | nil => rfl
  | cons command commands ih =>
    have htext : (command :: commands).flatMap WrittenCommand.text =
        command.introducer ++ (command.payload ++
          (command.terminator ++ commands.flatMap WrittenCommand.text)) := by
      simp [WrittenCommand.text]
    rw [colorChangesOf, htext, settings.colorChangesFrom_command command.introducer_mem
      command.isPayload command.terminator_mem]
    exact congrArg (settings.colorChanges command.payload ++ ·) ih

/-! ### Characters that change no colors -/

namespace Context

variable {σ κ : Type} [Screen σ] (ctx : Context σ κ)

theorem palette_executeControl (c : Char) :
    (ctx.executeControl c).store.palette = ctx.store.palette := by
  unfold executeControl
  split
  · rfl
  · split
    · rfl
    · split <;> rfl

omit [Screen σ] in
/-- What is read off a context stays the same if no single step changes it. -/
theorem foldl_keeps {α β : Type} (read : Context σ κ → β) {f : Context σ κ → α → Context σ κ}
    (hf : ∀ (ctx : Context σ κ) (x : α), read (f ctx x) = read ctx) (l : List α) :
    read (l.foldl f ctx) = read ctx := by
  induction l generalizing ctx with
  | nil => rfl
  | cons x l ih => exact (ih (f ctx x)).trans (hf ctx x)

theorem palette_finishControl (s : ControlSequence) (c : Char) :
    (s.finish c ctx).store.palette = ctx.store.palette := by
  simp only [ControlSequence.finish]
  split
  · refine ctx.foldl_keeps (·.store.palette) (fun ctx mode => ?_) _
    unfold ControlSequence.setMode
    split <;> rfl
  · split
    · refine ctx.foldl_keeps (·.store.palette) (fun ctx mode => ?_) _
      unfold ControlSequence.setPrivateMode
      split <;> rfl
    · rfl

theorem palette_control (s : ControlSequence) (c : Char) :
    (s.process c ctx).context.store.palette = ctx.store.palette := by
  rw [s.process_eq_step]
  cases s.role c with
  | introducer | canceller | filler | malformedFinal | overrun | accepted => rfl
  | executed => exact ctx.palette_executeControl c
  | final => exact ctx.palette_finishControl s c

theorem palette_finishEscape {c : Char} (hc : c ≠ 'c') :
    (EscapeSequence.finish c ctx).2.store.palette = ctx.store.palette := by
  unfold EscapeSequence.finish
  split <;> first | rfl | contradiction

omit [Screen σ] in
theorem palette_finishWith (intermediate : EscapeSequence.Intermediate) (c : Char) :
    (EscapeSequence.finishWith intermediate c ctx).store.palette = ctx.store.palette := by
  unfold EscapeSequence.finishWith
  split
  · split <;> rfl
  · rfl

/-- Only a full reset changes colors, and it has no intermediates. -/
theorem palette_escape (e : EscapeSequence) (c : Char) :
    (e.process c ctx).context.store.palette =
      onAll (if (Framing.escape e.intermediate.isNone).resets c then ColorChange.resets else [])
        ctx.store.palette := by
  by_cases hreset : e.intermediate = none ∧ c = 'c'
  · obtain ⟨hnone, rfl⟩ := hreset
    have hinitial : e = .initial := congrArg EscapeSequence.mk hnone
    subst hinitial
    have hprocess : (EscapeSequence.initial.process 'c' ctx).context = ctx.fullReset := rfl
    rw [hprocess]
    simp only [fullReset, Store.modifyPalette, Store.palette_remove]
    rfl
  · have hsame : (Framing.escape e.intermediate.isNone).resets c = false := by
      cases hseen : e.intermediate with
      | none => simpa [Framing.resets] using fun hc => hreset ⟨hseen, hc⟩
      | some seen => rfl
    rw [hsame, e.process_eq_step]
    cases hrole : e.role c with
    | introducer | canceller | intermediate => rfl
    | executed => exact ctx.palette_executeControl c
    | finalAfter seen => exact ctx.palette_finishWith seen c
    | final =>
      refine ctx.palette_finishEscape fun hc => hreset ⟨?_, hc⟩
      cases hseen : e.intermediate with
      | none => rfl
      | some seen =>
        unfold EscapeSequence.role at hrole
        simp only [hseen] at hrole
        split_ifs at hrole

end Context

namespace Progress

variable {σ κ : Type} [Screen σ] (x : Progress σ κ)

theorem palette_settle : x.settle.context.store.palette = x.context.store.palette := by
  simp only [settle, TextRun.flush]
  split <;> simp

theorem palette_settleBefore (next : Option Char) :
    (x.settleBefore next).context.store.palette = x.context.store.palette := by
  unfold settleBefore
  split
  · exact x.palette_settle
  · rfl

theorem palette_begin (c : Char) : (x.begin c).context.store.palette = x.context.store.palette := by
  cases hc : Opening.ofChar c with
  | text =>
    rw [begin_of_text _ hc]
    simp only [addText]
    split
    · exact palette_settle _
    · rfl
  | execute =>
    simp only [begin, hc]
    exact x.context.palette_executeControl c
  | escape | control | command | skipped | nul | del | ignored =>
    simp only [begin, hc]
    rfl

/-- After a string nothing changes colors but a full reset that interrupts it. -/
theorem palette_afterString (hescape : x.interpreter.escape = .initial) (c : Char) :
    (x.afterString (if c = '\\' then none else some c)).context.store.palette =
      onAll (if c == 'c' then ColorChange.resets else []) x.context.store.palette := by
  by_cases hc : c = '\\'
  · subst hc
    rfl
  · rw [if_neg hc]
    refine (x.context.palette_escape x.interpreter.escape c).trans ?_
    rw [hescape]
    rfl

variable [Clipboard κ] {x}

/-! ### What a character does to the colors -/

theorem palette_endString {command? : Option (List Char)} {escaped : Bool}
    (h : x.interpreter.Frames x.context.settings.payloadLimit (.string command? escaped)) :
    x.endString.context.store.palette =
      onAll (command?.toList.flatMap x.context.settings.colorChanges) x.context.store.palette := by
  have hend := congrArg (fun a : Host σ κ => a.store.palette) (toHost_endString h)
  refine Eq.trans hend ?_
  cases command? with
  | none => rfl
  | some payload =>
    rw [Option.toList_some, List.flatMap_singleton]
    exact x.context.toHost.palette_command payload

theorem palette_tick_string (htidy : x.interpreter.Tidy x.context.settings.payloadLimit)
    {command? : Option (List Char)} {escaped : Bool}
    (h : x.interpreter.Frames x.context.settings.payloadLimit (.string command? escaped))
    (c : Char) :
    (x.tick c).context.store.palette =
      onAll (x.context.settings.colorChangesAt (.string command? escaped) c)
        x.context.store.palette := by
  have hreads := readsString_of_frames h
  cases escaped with
  | true =>
    have hdone := htidy.keepsText.textDone hreads.ne_ready hreads.ne_text
    have hsame :=
      congrArg (fun a : Host σ κ => a.store.palette) (hreads.tick_of_escaped hdone c).host
    refine Eq.trans hsame ?_
    have hafter := palette_afterString x.endString (clear_endString htidy hreads).escape c
    rw [palette_endString h, ← onAll_append] at hafter
    exact hafter
  | false =>
    by_cases hc : c = bel ∨ c = st
    · have hended : (Framing.string command? false).ended? c = command? := if_pos hc
      have hsame := congrArg (fun a : Host σ κ => a.store.palette) (hreads.tick_terminator hc).host
      refine (Eq.trans hsame (palette_endString h)).trans ?_
      have hresets : (Framing.string command? false).resets c = false := rfl
      rw [Settings.colorChangesAt, hended, hresets, if_neg Bool.false_ne_true, List.append_nil]
    · have hended : (Framing.string command? false).ended? c = none := if_neg hc
      rw [(tick_of_open h hc).2, Settings.colorChangesAt, hended]
      rfl

/-- Where a character is read the changes are made that its framing says. -/
theorem palette_tick (htidy : x.interpreter.Tidy x.context.settings.payloadLimit) {f : Framing}
    (h : x.interpreter.Frames x.context.settings.payloadLimit f) (c : Char) :
    (x.tick c).context.store.palette =
      onAll (x.context.settings.colorChangesAt f c) x.context.store.palette := by
  cases f with
  | ground =>
    have htick : x.tick c = (x.settleBefore (some c)).begin c := by
      rcases h with hstate | hstate <;> rw [tick, hstate]
    rw [htick, palette_begin, palette_settleBefore]
    rfl
  | escape bare =>
    obtain ⟨hstate, rfl⟩ := h
    rw [tick, hstate]
    exact x.context.palette_escape x.interpreter.escape c
  | control =>
    have hstate : x.interpreter.state = .control := h
    rw [tick, hstate]
    exact x.context.palette_control x.interpreter.control c
  | string command? escaped => exact palette_tick_string htidy h c

/-- A stream makes its changes, in order. -/
theorem palette_after {settings : Settings}
    (hsettings : (Likeness.ofSettings σ κ settings).Alike x x)
    (htidy : x.interpreter.Tidy settings.payloadLimit) {f : Framing}
    (h : x.interpreter.Frames settings.payloadLimit f) (s : List Char) :
    (x.after s).context.store.palette =
      onAll (settings.colorChangesFrom f s) x.context.store.palette := by
  -- The framing is what the interpreter has in progress, and goes on as it does.
  induction s generalizing x f with
  | nil => rfl
  | cons c s ih =>
    have hlimit : x.context.settings = settings := hsettings.host.left
    have hnow : x.interpreter.Tidy x.context.settings.payloadLimit := hlimit ▸ htidy
    have hframes : x.interpreter.Frames x.context.settings.payloadLimit f := hlimit ▸ h
    have hpalette := palette_tick hnow hframes c
    have hnext := frames_tick hnow hframes c
    rw [hlimit] at hpalette hnext
    rw [after_cons, ih (hsettings.tick c) (tidy_after hsettings htidy [c]) hnext, hpalette,
      Settings.colorChangesFrom, onAll_append]

end Progress

/-! ### Terminals -/

/-- In whatever order they are brought back, all colors are. -/
theorem ColorChange.onAll_of_perm_resets {changes : List ColorChange}
    (h : changes.Perm ColorChange.resets) (p : Palette) : onAll changes p = p.reset := by
  have hcommute : ∀ a ∈ resets, ∀ b ∈ resets, ∀ p : Palette, b.on (a.on p) = a.on (b.on p) := by
    intro a ha b hb p
    simp only [resets, List.mem_cons, List.not_mem_nil, or_false] at ha hb
    rcases ha with rfl | rfl | rfl <;> rcases hb with rfl | rfl | rfl <;> rfl
  rw [← onAll_resets]
  exact h.foldl_eq' (fun a ha b hb p => hcommute a (h.subset ha) b (h.subset hb) p) p

theorem Settings.colorChanges_append {settings : Settings} {selector argument : List Char}
    (hselector : ';' ∉ selector)
    (hshort : (selector ++ ';' :: argument).length ≤ settings.commandLimit.toNat) :
    settings.colorChanges (selector ++ ';' :: argument) =
      (Command.ofSelector? selector).elim [] (·.colorChanges argument) := by
  rw [colorChanges, cutAt?_append hselector]
  exact if_pos hshort

/-- The payloads of the commands that bring back all colors. -/
def resetPayloads : List (List Char) := ["104;".toList, "110;".toList, "111;".toList]

theorem Settings.colorChanges_resetPayloads {settings : Settings}
    (h : 4 ≤ settings.commandLimit.toNat) :
    resetPayloads.flatMap settings.colorChanges = ColorChange.resets := by
  have hindexed : settings.colorChanges ("104".toList ++ ';' :: []) = _ :=
    colorChanges_append (by decide) h
  have hforeground : settings.colorChanges ("110".toList ++ ';' :: []) = _ :=
    colorChanges_append (by decide) h
  have hbackground : settings.colorChanges ("111".toList ++ ';' :: []) = _ :=
    colorChanges_append (by decide) h
  calc resetPayloads.flatMap settings.colorChanges
      = settings.colorChanges ("104".toList ++ [';']) ++
          (settings.colorChanges ("110".toList ++ [';']) ++
            (settings.colorChanges ("111".toList ++ [';']) ++ [])) := rfl
    _ = ColorChange.resets := by rw [hindexed, hforeground, hbackground]; rfl

namespace Terminal

variable {σ κ : Type} [Screen σ] [Clipboard κ] {t : Terminal σ κ}

/-- However it is divided, a stream makes its changes to the colors. -/
theorem AtRest.palette_writeAll (h : t.AtRest) (hready : t.state = .ready)
    (pieces : List (List Char)) :
    (t.writeAll pieces).store.palette =
      onAll (t.host.settings.colorChangesOf pieces.flatten) t.store.palette := by
  have hflatten : pieces.flatten = [pieces.flatten].flatten := List.flatten_singleton.symm
  have hwhole : (t.writeAll pieces).store.palette = (t.write pieces.flatten).store.palette :=
    (sameBesideScreen_of_flatten_eq h hflatten).1.store.palette
  rw [hwhole, h.palette_write]
  exact Progress.palette_after (x := t.progress) (f := .ground)
    (Progress.alike_ofSettings h.textDone) h.tidy (.inl hready) pieces.flatten

/-- Wherever ESC and `c` are delivered, they bring back all colors. -/
theorem palette_writeAll_reset (screen : σ) (clipboard : κ) (settings : Settings)
    {pieces reset : List (List Char)} (hreset : reset.flatten = [esc, 'c']) :
    (((onScreen screen clipboard settings).writeAll pieces).writeAll reset).store.palette =
      settings.colors.toPalette := by
  have hrest : (onScreen screen clipboard settings).AtRest := (Reachable.onScreen _ _ _).atRest
  have hpalette := hrest.palette_writeAll rfl (pieces ++ reset)
  obtain ⟨front, hfront⟩ := settings.exists_colorChangesFrom_reset
    (pieces.flatten.foldl Framing.next .ground)
  rw [← writeAll_append, hpalette, List.flatten_append, hreset, Settings.colorChangesOf,
    Settings.colorChangesFrom_append]
  refine (congrArg (onAll · _) (congrArg _ hfront)).trans ?_
  rw [onAll_append, onAll_append, ColorChange.onAll_resets, Palette.reset_eq,
    ColorChange.initial_onAll, ColorChange.initial_onAll]
  rfl

/-- In whatever order they are delivered, the three commands bring back all colors. -/
theorem Driven.palette_writeAll_commands {settings : Settings} (h : t.Driven settings)
    (hready : t.state = .ready) (hlimit : 4 ≤ settings.commandLimit.toNat)
    {commands : List WrittenCommand} {delivery : List (List Char)}
    (hpayloads : (commands.map WrittenCommand.payload).Perm resetPayloads)
    (hdelivery : delivery.flatten = commands.flatMap WrittenCommand.text) :
    (t.writeAll delivery).store.palette = settings.colors.toPalette := by
  have hchanges : (settings.colorChangesOf delivery.flatten).Perm ColorChange.resets := by
    rw [hdelivery, Settings.colorChangesOf_commands, ← Settings.colorChanges_resetPayloads hlimit]
    exact hpayloads.flatMap_right _
  rw [h.atRest.palette_writeAll hready delivery, h.settings_eq,
    ColorChange.onAll_of_perm_resets hchanges, Palette.reset_eq, h.regular.initial_eq]
  rfl

/-- The colors in force have 24 bits, and the stream says which they are. An indexed color is the
one that was set last since it was brought back, or else the configured one. So are the default
colors, except that a default which is not configured follows an indexed color. After ESC and `c`,
and after the three commands that bring back colors, in any order, the palette is the configured
one. -/
theorem palette_history (screen : σ) (clipboard : κ) (settings : Settings)
    (pieces : List (List Char)) :
    let t : Terminal σ κ := (onScreen screen clipboard settings).writeAll pieces
    let palette := t.store.palette
    let configured := settings.colors.toPalette
    let last := ColorChange.lastColor? (settings.colorChangesOf pieces.flatten)
    (∀ query : ColorQuery, (query.color palette).packed.toNat < Nat.pow 2 24) ∧
    (∀ i, palette.get i = (last (.indexed i)).getD (configured.get i)) ∧
    palette.foreground = ((last (.default .foreground)).or
      (configured.default? .foreground)).getD (palette.get 7) ∧
    palette.background = ((last (.default .background)).or
      (configured.default? .background)).getD (palette.get 0) ∧
    (∀ {reset : List (List Char)}, reset.flatten = [esc, 'c'] →
      (t.writeAll reset).store.palette = configured) ∧
    (t.state = .ready → 4 ≤ settings.commandLimit.toNat →
      ∀ {commands : List WrittenCommand} {delivery : List (List Char)},
        (commands.map WrittenCommand.payload).Perm resetPayloads →
        delivery.flatten = commands.flatMap WrittenCommand.text →
          (t.writeAll delivery).store.palette = configured) := by
  intro t palette configured last
  have hstart : (onScreen screen clipboard settings : Terminal σ κ).Driven settings :=
    .onScreen _ _
  have hdriven : t.Driven settings := hstart.writeAll pieces
  have hmasked : ∀ change ∈ settings.colorChangesOf pieces.flatten, change.Masked :=
    fun change => settings.masked_of_mem_colorChangesFrom
  have hpalette : palette = onAll (settings.colorChangesOf pieces.flatten) configured.reset :=
    hstart.atRest.palette_writeAll rfl pieces
  refine ⟨fun query => ?_, fun i => ?_, ?_, ?_, palette_writeAll_reset screen clipboard settings,
    fun hready hlimit _ _ => hdriven.palette_writeAll_commands hready hlimit⟩
  · rw [← ColorQuery.masked_color hdriven.masked query]
    exact Color.packed_masked_lt _
  · rw [hpalette]
    exact configured.get_onAll hmasked i
  · rw [hpalette]
    exact configured.default_onAll hmasked .foreground _
  · rw [hpalette]
    exact configured.default_onAll hmasked .background _

/-- Colors of which some are set and some are brought back, in a scheme with a foreground and an
indexed color of its own. The background, which it leaves open, follows the indexed black. -/
theorem palette_history_follows :
    let colors : ColorScheme := ⟨some ⟨0x12, 0x34, 0x56⟩, none, standardAnsi.set 1 ⟨1, 2, 3⟩⟩
    let settings : Settings := { Settings.standard with colors }
    let t := (onPage (.empty 80) settings).writeAll
      ["\x1b]4;1;#102030;7;#405060;0;#0a0b0c\x07\x1b]10;#ffffff\x07\x1b]104;1\x07".toList,
        "\x1b]110;\x07".toList]
    let commands : List WrittenCommand :=
      [⟨[esc, ']'], "111;".toList, [esc, '\\'], by decide, by decide, by decide⟩,
        ⟨[osc], "104;".toList, [bel], by decide, by decide, by decide⟩,
        ⟨[esc, ']'], "110;".toList, [st], by decide, by decide, by decide⟩]
    t.store.palette.get 1 = ⟨0x010203⟩ ∧ t.store.palette.get 7 = ⟨0x405060⟩ ∧
      t.store.palette.foreground = ⟨0x123456⟩ ∧ t.store.palette.background = ⟨0x0A0B0C⟩ ∧
      t.state = .ready ∧ 4 ≤ settings.commandLimit.toNat ∧
      (commands.map WrittenCommand.payload).Perm resetPayloads ∧
      (t.writeAll [commands.flatMap WrittenCommand.text]).store.palette = colors.toPalette ∧
      (t.writeAll [[esc], ['c']]).store.palette = colors.toPalette ∧
      colors.toPalette.foreground = ⟨0x123456⟩ ∧ colors.toPalette.background = ⟨0⟩ := by
  intro colors settings t commands
  obtain ⟨-, hindexed, hforeground, hbackground, hreset, hcommands⟩ :=
    palette_history (Page.empty 80) MemoryClipboard.empty settings
      ["\x1b]4;1;#102030;7;#405060;0;#0a0b0c\x07\x1b]10;#ffffff\x07\x1b]104;1\x07".toList,
        "\x1b]110;\x07".toList]
  have hstart : (onPage (.empty 80) settings).AtRest := (Reachable.onScreen _ _ _).atRest
  have hready : t.state = .ready := by
    have hwrites : t = ((onPage (.empty 80) settings).write _).write _ := rfl
    rw [state, hwrites, write_eq (hstart.write _), write_eq hstart]
    simp only [settings, colors]
    decide +kernel
  have hlimit : 4 ≤ settings.commandLimit.toNat := by decide +kernel
  have hpayloads : (commands.map WrittenCommand.payload).Perm resetPayloads := by decide
  have hdelivery : [commands.flatMap WrittenCommand.text].flatten =
      commands.flatMap WrittenCommand.text := List.flatten_singleton
  have hblack : t.store.palette.get 0 = ⟨0x0A0B0C⟩ := (hindexed 0).trans (by decide +kernel)
  refine ⟨(hindexed 1).trans (by decide +kernel), (hindexed 7).trans (by decide +kernel), ?_, ?_,
    hready, hlimit, hpayloads, hcommands hready hlimit hpayloads hdelivery, hreset rfl,
    by decide +kernel, by decide +kernel⟩
  · exact hforeground.trans (by decide +kernel)
  · rw [← hblack]
    exact hbackground.trans (by decide +kernel)

end Terminal

end ControlStream
