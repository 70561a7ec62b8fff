import ControlStream.Proofs.AtRest

/-!
# Actions

All that interpretation does to a host is one of a few actions after the other: a value is set, the
character sets or the colors are changed, a query is answered, a text is copied, the screen is
called, or everything is brought back. What every action preserves is therefore true of a host for
as long as nobody else changes it.

## Main definitions

* `GraphicChange`, `ColorChange`, `ColorQuery`, `Action`: what can be done to a host.
* `Host.Leads`: one host comes of another by actions.
* `Terminal.Driven`: terminals whose stores nobody but the interpreter has changed.

## Main statements

* `Progress.leads_tick`: interpreting a character amounts to actions.
* `Host.Leads.invariant`: what every action preserves remains.
* `Terminal.Driven.store_invariant`: what every action preserves is true of a store if it was at
  first.
-/

namespace ControlStream

/-! ### What can be done to a host -/

inductive GraphicChange
  | designate (slot : UInt8) (charset : Charset)
  | single (slot : UInt8)
  | shiftOut
  | shiftIn
  /-- A character was sent through the character set in use. -/
  | used
  deriving DecidableEq, Repr

def GraphicChange.on : GraphicChange → GraphicSet → GraphicSet
  | designate slot charset, g => g.designate slot charset
  | single slot, g => g.single slot
  | shiftOut, g => g.shiftOut
  | shiftIn, g => g.shiftIn
  | used, g => g.afterOne

inductive ColorChange
  | setIndexed (i : UInt8) (c : Color)
  | setDefault (which : DefaultColor) (c : Color)
  | resetIndexed (i : UInt8)
  | resetAllIndexed
  | resetDefault (which : DefaultColor)
  deriving DecidableEq, Repr

def ColorChange.on : ColorChange → Palette → Palette
  | setIndexed i c, p => p.set i c
  | setDefault which c, p => which.set c p
  | resetIndexed i, p => p.resetIndexed i
  | resetAllIndexed, p => p.resetAllIndexed
  | resetDefault which, p => which.reset p

inductive ColorQuery
  | indexed (i : UInt8)
  | default (which : DefaultColor)
  deriving DecidableEq, Repr

namespace ColorQuery

def selector : ColorQuery → String
  | indexed i => s!"4;{i.toNat}"
  | default which => toString which.selector

def color (p : Palette) : ColorQuery → Color
  | indexed i => p.get i
  | default which => which.get p

def answer (p : Palette) (query : ColorQuery) : String := colorAnswer query.selector (query.color p)

end ColorQuery

def Store.fullReset (s : Store) : Store :=
  s.remove Key.graphicSet
    |>.remove Key.insertMode
    |>.remove Key.cursorVisible
    |>.remove Key.applicationKeypad
    |>.remove Key.windowTitle
    |>.remove Key.iconTitle
    |>.modifyPalette Palette.reset

/-- The last four removals of a full reset make no difference to a key of another name. -/
theorem Store.get?_fullReset {α : Type} [Storable α] (s : Store) {k : Key α}
    (hk : k.name ∉ [Key.cursorVisible.name, Key.applicationKeypad.name, Key.windowTitle.name,
      Key.iconTitle.name]) :
    s.fullReset.get? k = ((s.remove Key.graphicSet).remove Key.insertMode).get? k := by
  simp only [List.mem_cons, List.not_mem_nil, or_false, not_or] at hk
  obtain ⟨hcursor, hkeypad, hwindow, hicon⟩ := hk
  have hreset : s.fullReset.get? k =
      (((((s.remove Key.graphicSet).remove Key.insertMode).remove Key.cursorVisible).remove
        Key.applicationKeypad).remove Key.windowTitle |>.remove Key.iconTitle).get? k := rfl
  rw [hreset, get?_remove_of_ne _ (Ne.symm hicon), get?_remove_of_ne _ (Ne.symm hwindow),
    get?_remove_of_ne _ (Ne.symm hkeypad), get?_remove_of_ne _ (Ne.symm hcursor)]

/-- Something done to a host. Answers and copies are made only if the settings allow them. -/
inductive Action
  | windowTitle (text : String)
  | iconTitle (text : String)
  | workdir (text : String)
  | applicationKeypad (enabled : Bool)
  | cursorVisible (enabled : Bool)
  | insertMode (enabled : Bool)
  | graphic (change : GraphicChange)
  | color (change : ColorChange)
  | answer (query : ColorQuery)
  | copy (text : String)
  | write (text : String)
  | control (c : Char)
  | fullReset
  deriving DecidableEq, Repr

section Hosts

variable {σ κ : Type} [Screen σ] [Clipboard κ]

def Action.on (action : Action) (a : Host σ κ) : Host σ κ :=
  match action with
  | windowTitle text => { a with store := a.store.set .windowTitle text }
  | iconTitle text => { a with store := a.store.set .iconTitle text }
  | workdir text => { a with store := a.store.set .workdir text }
  | applicationKeypad enabled => { a with store := a.store.set .applicationKeypad enabled }
  | cursorVisible enabled => { a with store := a.store.set .cursorVisible enabled }
  | insertMode enabled =>
    { a with
      store := a.store.set .insertMode enabled
      screen := Screen.setInsertMode a.screen enabled }
  | graphic change => { a with store := a.store.modify .graphicSet change.on }
  | color change => { a with store := a.store.modifyPalette change.on }
  | answer query =>
    { a with replies := a.settings.answered a.replies (query.answer a.store.palette) }
  | copy text => { a with clipboard := a.settings.copied a.clipboard text }
  | write text =>
    { a with
      screen := Screen.write a.screen text
      store := a.store.set .written text }
  | control c => { a with screen := Screen.control a.screen c }
  | fullReset =>
    { a with
      store := a.store.fullReset
      screen := Screen.setInsertMode a.screen false }

/-- A host that comes of another by actions. -/
def Host.Leads (a b : Host σ κ) : Prop :=
  ∃ actions : List Action, b = actions.foldl (fun a action => action.on a) a

namespace Host.Leads

variable {a b c : Host σ κ}

theorem refl (a : Host σ κ) : a.Leads a := ⟨[], rfl⟩

theorem trans (h : a.Leads b) (h' : b.Leads c) : a.Leads c := by
  obtain ⟨actions, rfl⟩ := h
  obtain ⟨more, rfl⟩ := h'
  exact ⟨actions ++ more, List.foldl_append.symm⟩

theorem of_action (action : Action) (h : b = action.on a) : a.Leads b := ⟨[action], h⟩

/-- What every action preserves remains. -/
theorem invariant {P : Host σ κ → Prop} (h : a.Leads b)
    (hstep : ∀ (action : Action) {a : Host σ κ}, P a → P (action.on a)) (ha : P a) : P b := by
  obtain ⟨actions, rfl⟩ := h
  induction actions generalizing a with
  | nil => exact ha
  | cons action actions ih => exact ih (hstep action ha)

/-- No action changes the settings. -/
theorem settings_eq (h : a.Leads b) : b.settings = a.settings := by
  refine h.invariant (P := fun b => b.settings = a.settings) ?_ rfl
  intro action b hb
  cases action <;> exact hb

end Host.Leads

/-! ### Single operations -/

namespace Context

variable (ctx : Context σ κ)

theorem leads_modifyGraphicSet (change : GraphicChange) :
    ctx.toHost.Leads (ctx.modifyGraphicSet change.on).toHost :=
  .of_action (.graphic change) rfl

theorem leads_modifyPalette (change : ColorChange) :
    ctx.toHost.Leads (ctx.modifyPalette change.on).toHost :=
  .of_action (.color change) rfl

theorem leads_executeControl (c : Char) : ctx.toHost.Leads (ctx.executeControl c).toHost := by
  unfold executeControl
  split
  · exact .of_action (.control c) rfl
  · split
    · exact ctx.leads_modifyGraphicSet .shiftOut
    · split
      · exact ctx.leads_modifyGraphicSet .shiftIn
      · exact .refl _

theorem leads_fullReset : ctx.toHost.Leads ctx.fullReset.toHost := .of_action .fullReset rfl

/-- What can be done for each element of a list can be done for all of them. -/
theorem leads_foldl {α : Type} {f : Context σ κ → α → Context σ κ}
    (hf : ∀ (ctx : Context σ κ) (x : α), ctx.toHost.Leads (f ctx x).toHost) (l : List α) :
    ctx.toHost.Leads (l.foldl f ctx).toHost := by
  induction l generalizing ctx with
  | nil => exact .refl _
  | cons x l ih => exact (hf ctx x).trans (ih (f ctx x))

/-! ### Commands -/

theorem leads_answerColor (query : ColorQuery) {selector : String} {c : Color}
    (hselector : selector = query.selector) (hc : c = query.color ctx.store.palette) :
    ctx.toHost.Leads (ctx.answerColor selector c).toHost := by
  subst hselector hc
  exact .of_action (.answer query) (toHost_answerColor ctx _ _)

theorem leads_defaultColor (which : DefaultColor) (spec : List Char) :
    ctx.toHost.Leads (ctx.defaultColor which spec).toHost := by
  unfold defaultColor
  split
  · exact ctx.leads_modifyPalette (.setDefault which _)
  · simp only
    split
    · exact ctx.leads_answerColor (.default which) rfl rfl
    · exact leads_answerColor (ctx.log _) (.default which) rfl rfl

theorem leads_indexedColor (i : UInt8) (spec : List Char) :
    ctx.toHost.Leads (ctx.indexedColor i spec).toHost := by
  unfold indexedColor
  split
  · exact ctx.leads_answerColor (.indexed i) rfl rfl
  · split
    · exact ctx.leads_modifyPalette (.setIndexed i _)
    · exact .refl _

theorem leads_indexedColors (fields : List (List Char)) :
    ctx.toHost.Leads (ctx.indexedColors fields).toHost := by
  induction ctx, fields using indexedColors.induct with
  | case1 ctx index spec fields hindex =>
    simp only [indexedColors, hindex]
    exact .refl _
  | case2 ctx index spec fields i hindex ih =>
    simp only [indexedColors, hindex]
    exact (ctx.leads_indexedColor i spec).trans ih
  | case3 fields ctx hfields =>
    rw [indexedColors.eq_2 _ _ hfields]
    exact .refl _

theorem leads_resetIndexed (index : List Char) :
    ctx.toHost.Leads (ctx.resetIndexed index).toHost := by
  unfold resetIndexed
  split
  · exact ctx.leads_modifyPalette (.resetIndexed _)
  · exact .refl _

theorem leads_copyData (hallowed : ctx.settings.clipboardWrites = true) (data : List Char) :
    ctx.toHost.Leads (ctx.copyData data).toHost := by
  unfold copyData
  split
  · exact .refl _
  · split
    · exact .refl _
    · rename_i bytes _
      refine .of_action (.copy (String.ofList (decodeUtf8Lossy bytes))) ?_
      rw [toHost_copy]
      simp only [Action.on, Settings.copied, hallowed, if_true]

theorem leads_selection (argument : List Char) :
    ctx.toHost.Leads (ctx.selection argument).toHost := by
  unfold selection
  generalize (cutAt? ';' argument).getD (argument, []) = parts
  obtain ⟨target, data⟩ := parts
  simp only
  split
  · exact .refl _
  · split
    · exact .refl _
    · rename_i hallowed
      split
      · exact .refl _
      · exact ctx.leads_copyData (by simpa using hallowed) data

theorem leads_apply (command : Command) (argument : List Char) :
    ctx.toHost.Leads (command.apply argument ctx).toHost := by
  cases command with
  | windowTitle => exact .of_action (.windowTitle _) rfl
  | iconTitle => exact .of_action (.iconTitle _) rfl
  | workdir => exact .of_action (.workdir _) rfl
  | hyperlink => exact .refl _
  | indexedColors => exact ctx.leads_indexedColors _
  | defaultColor which => exact ctx.leads_defaultColor which argument
  | selection => exact ctx.leads_selection argument
  | resetDefault which => exact ctx.leads_modifyPalette (.resetDefault which)
  | resetIndexed =>
    simp only [Command.apply]
    split
    · exact ctx.leads_modifyPalette .resetAllIndexed
    · exact ctx.leads_foldl leads_resetIndexed _

theorem leads_applyPayload (payload : List Char) :
    ctx.toHost.Leads (ctx.applyPayload payload).toHost := by
  unfold applyPayload
  split
  · exact .refl _
  · split
    · exact .refl _
    · split
      · exact ctx.leads_apply _ _
      · exact .refl _

theorem leads_finishCommand (s : CommandString) : ctx.toHost.Leads (s.finish ctx).toHost := by
  unfold CommandString.finish
  split
  · exact .refl _
  · exact ctx.leads_applyPayload _

/-! ### Control sequences and escape sequences -/

theorem leads_setMode (enabled : Bool) (mode : Nat) :
    ctx.toHost.Leads (ControlSequence.setMode enabled ctx mode).toHost := by
  unfold ControlSequence.setMode
  split
  · exact .of_action (.insertMode enabled) rfl
  · exact .refl _

theorem leads_setPrivateMode (enabled : Bool) (mode : Nat) :
    ctx.toHost.Leads (ControlSequence.setPrivateMode enabled ctx mode).toHost := by
  unfold ControlSequence.setPrivateMode
  split
  · exact .of_action (.cursorVisible enabled) rfl
  · exact .refl _

theorem leads_finishControl (s : ControlSequence) (c : Char) :
    ctx.toHost.Leads (s.finish c ctx).toHost := by
  simp only [ControlSequence.finish]
  split
  · exact ctx.leads_foldl (fun ctx mode => ctx.leads_setMode _ mode) _
  · split
    · exact ctx.leads_foldl (fun ctx mode => ctx.leads_setPrivateMode _ mode) _
    · exact .refl _

theorem leads_finishEscape (c : Char) :
    ctx.toHost.Leads (EscapeSequence.finish c ctx).2.toHost := by
  unfold EscapeSequence.finish
  split
  · exact .refl _
  · exact .refl _
  · exact .refl _
  · exact .refl _
  · exact .refl _
  · exact .refl _
  · exact .refl _
  · exact ctx.leads_modifyGraphicSet (.single 2)
  · exact ctx.leads_modifyGraphicSet (.single 3)
  · exact .of_action (.applicationKeypad true) rfl
  · exact .of_action (.applicationKeypad false) rfl
  · exact ctx.leads_fullReset
  · exact .refl _

theorem leads_finishWith (intermediate : EscapeSequence.Intermediate) (c : Char) :
    ctx.toHost.Leads (EscapeSequence.finishWith intermediate c ctx).toHost := by
  unfold EscapeSequence.finishWith
  split
  · split
    · exact .of_action (.graphic (.designate _ _)) rfl
    · exact .refl _
  · exact .refl _

theorem leads_escape (e : EscapeSequence) (c : Char) :
    ctx.toHost.Leads (e.process c ctx).context.toHost := by
  rw [e.process_eq_step]
  cases e.role c with
  | introducer | canceller | intermediate => exact .refl _
  | executed => exact ctx.leads_executeControl c
  | final => exact ctx.leads_finishEscape c
  | finalAfter seen => exact ctx.leads_finishWith seen c

theorem leads_control (s : ControlSequence) (c : Char) :
    ctx.toHost.Leads (s.process c ctx).context.toHost := by
  rw [s.process_eq_step]
  cases s.role c with
  | introducer | canceller | filler | malformedFinal | overrun | accepted => exact .refl _
  | executed => exact ctx.leads_executeControl c
  | final => exact ctx.leads_finishControl s c

end Context

/-! ### Characters -/

namespace Progress

variable (x : Progress σ κ)

theorem leads_settle : x.context.toHost.Leads x.settle.context.toHost := by
  by_cases hempty : x.interpreter.textRun = .empty
  · simp only [settle, hempty, TextRun.flush_empty]
    exact .refl _
  · simp only [settle, TextRun.flush_of_ne hempty]
    exact .of_action (.write x.interpreter.textRun.pending) rfl

theorem leads_settleBefore (next : Option Char) :
    x.context.toHost.Leads (x.settleBefore next).context.toHost := by
  unfold settleBefore
  split
  · exact x.leads_settle
  · exact .refl _

theorem leads_addText (c : Char) : x.context.toHost.Leads (x.addText c).context.toHost := by
  have hused : x.context.toHost.Leads (x.interpreter.textRun.add c x.context).2.toHost :=
    .of_action (.graphic .used) rfl
  simp only [addText]
  split
  · exact hused.trans (leads_settle _)
  · exact hused

theorem leads_begin (c : Char) : x.context.toHost.Leads (x.begin c).context.toHost := by
  cases hc : Opening.ofChar c with
  | text =>
    rw [begin_of_text _ hc]
    exact x.leads_addText c
  | escape | control | command | skipped | nul | del | ignored =>
    simp only [begin, hc]
    exact .refl _
  | execute =>
    simp only [begin, hc]
    exact x.context.leads_executeControl c

theorem leads_tickEscape (c : Char) : x.context.toHost.Leads (x.tickEscape c).context.toHost :=
  x.context.leads_escape _ c

theorem leads_afterString (interrupt : Option Char) :
    x.context.toHost.Leads (x.afterString interrupt).context.toHost := by
  cases interrupt with
  | none => exact .refl _
  | some c => exact x.leads_tickEscape c

theorem leads_tickSkipped (c : Char) : x.context.toHost.Leads (x.tickSkipped c).context.toHost := by
  simp only [tickSkipped]
  split
  · exact leads_afterString ⟨_, x.context.log _⟩ _
  · exact .refl _

theorem leads_tickCommand (c : Char) : x.context.toHost.Leads (x.tickCommand c).context.toHost := by
  simp only [tickCommand]
  split
  · exact (x.context.leads_finishCommand _).trans (leads_afterString ⟨_, _⟩ _)
  · exact .refl _

/-- Interpreting a character amounts to actions. -/
theorem leads_tick (c : Char) : x.context.toHost.Leads (x.tick c).context.toHost := by
  unfold tick
  split
  · exact (x.leads_settleBefore _).trans (leads_begin _ c)
  · exact (x.leads_settleBefore _).trans (leads_begin _ c)
  · exact x.leads_tickEscape c
  · exact x.context.leads_control _ c
  · exact x.leads_tickCommand c
  · exact x.leads_tickSkipped c

theorem leads_after (s : List Char) : x.context.toHost.Leads (x.after s).context.toHost := by
  induction s generalizing x with
  | nil => exact .refl _
  | cons c s ih => exact (x.leads_tick c).trans (ih (x.tick c))

end Progress

end Hosts

/-! ### Deliveries -/

namespace Terminal

variable {σ κ : Type} [Screen σ] [Clipboard κ]

theorem AtRest.leads_write {t : Terminal σ κ} (h : t.AtRest) (s : List Char) :
    t.host.Leads (t.write s).host := by
  rw [write_eq h]
  exact (t.progress.leads_after s).trans (Progress.leads_settle _)

/-- Terminals that come about by deliveries and resets, while their owners may change the screen and
take the replies but leave the store alone. -/
inductive Driven (settings : Settings) : Terminal σ κ → Prop
  /-- A terminal to which nothing was delivered. -/
  | onScreen (screen : σ) (clipboard : κ) : Driven settings (.onScreen screen clipboard settings)
  /-- A terminal to which a piece of text was delivered. -/
  | write {t : Terminal σ κ} (h : Driven settings t) (s : List Char) : Driven settings (t.write s)
  /-- A terminal that was reset. -/
  | reset {t : Terminal σ κ} (h : Driven settings t) : Driven settings t.reset
  /-- A terminal whose owner has changed the screen. -/
  | modifyScreen {t : Terminal σ κ} (h : Driven settings t) (f : σ → σ) :
    Driven settings (t.modifyScreen f)
  /-- A terminal whose owner has taken the replies. -/
  | takeReplies {t : Terminal σ κ} (h : Driven settings t) : Driven settings t.takeReplies.2

namespace Driven

variable {settings : Settings} {t : Terminal σ κ}

theorem reachable (h : t.Driven settings) : t.Reachable := by
  induction h with
  | onScreen screen clipboard => exact .onScreen screen clipboard settings
  | write _ s ih => exact ih.write s
  | reset _ ih => exact ih.reset
  | modifyScreen _ f ih => exact ih.modifyScreen f
  | takeReplies _ ih => exact ih.takeReplies

theorem atRest (h : t.Driven settings) : t.AtRest := h.reachable.atRest

theorem writeAll (h : t.Driven settings) (pieces : List (List Char)) :
    (t.writeAll pieces).Driven settings := by
  induction pieces generalizing t with
  | nil => exact h
  | cons s pieces ih => exact ih (h.write s)

theorem settings_eq (h : t.Driven settings) : t.host.settings = settings := by
  induction h with
  | onScreen screen clipboard => rfl
  | write ht s ih => exact ((ht.atRest.leads_write s).settings_eq).trans ih
  | reset _ ih => exact ih
  | modifyScreen _ _ ih => exact ih
  | takeReplies _ ih => exact ih

/-- What every action preserves is true of the store if it was at first. -/
theorem store_invariant {P : Store → Prop} (h : t.Driven settings)
    (hstep : ∀ (action : Action) {a : Host σ κ}, P a.store → P (action.on a).store)
    (hinitial : P (.ofPalette settings.colors.toPalette)) : P t.store := by
  induction h with
  | onScreen screen clipboard => exact hinitial
  | write ht s ih => exact (ht.atRest.leads_write s).invariant (P := fun a => P a.store) hstep ih
  | reset _ ih => exact ih
  | modifyScreen _ _ ih => exact ih
  | takeReplies _ ih => exact ih

end Driven

end Terminal

end ControlStream
