import ControlStream.Proofs.Calls
import ControlStream.Proofs.Progress

/-!
# Likeness

Two interpreters that are given the same characters make the same calls to their screens and
clipboards, whatever these are, and set the same values. How much two terminals must have in common
for this to remain so, and what follows for them, depends on the question. A likeness is one such
choice, together with the reasons why nothing an interpreter does can make an end of it.

## Main definitions

* `Store.AgreeExcept`: stores that agree but for values under certain names.
* `Likeness`: what two hosts have in common.
* `Likeness.Hosts`, `Likeness.Alike`: hosts, and interpretations in progress, that have it.

## Main statements

* `Likeness.Alike.tick`, `Likeness.Alike.settle`: a likeness remains with every character.
* `Likeness.Alike.after`: a likeness remains.
-/

namespace ControlStream

/-! ### Stores that agree -/

/-- Two stores have the same palette, and the same values but for those under ignored names. -/
structure Store.AgreeExcept (ignored : String → Prop) (s t : Store) : Prop where
  entries : ∀ name, ¬ ignored name → s.entries[name]? = t.entries[name]?
  palette : s.palette = t.palette

namespace Store.AgreeExcept

variable {ignored : String → Prop} {s t u : Store} {α : Type} [Storable α]

theorem refl (ignored : String → Prop) (s : Store) : s.AgreeExcept ignored s :=
  ⟨fun _ _ => rfl, rfl⟩

theorem symm (h : s.AgreeExcept ignored t) : t.AgreeExcept ignored s :=
  ⟨fun name hname => (h.entries name hname).symm, h.palette.symm⟩

theorem trans (h : s.AgreeExcept ignored t) (h' : t.AgreeExcept ignored u) :
    s.AgreeExcept ignored u :=
  ⟨fun name hname => (h.entries name hname).trans (h'.entries name hname),
    h.palette.trans h'.palette⟩

theorem weaken {more : String → Prop} (h : s.AgreeExcept ignored t)
    (hmore : ∀ name, ignored name → more name) : s.AgreeExcept more t :=
  ⟨fun name hname => h.entries name (mt (hmore name) hname), h.palette⟩

theorem get?_eq (h : s.AgreeExcept ignored t) {k : Key α} (hk : ¬ ignored k.name) :
    s.get? k = t.get? k := by
  rw [get?, get?, h.entries _ hk]

theorem getD_eq (h : s.AgreeExcept ignored t) {k : Key α} (hk : ¬ ignored k.name) (a : α) :
    s.getD k a = t.getD k a := by
  rw [getD, getD, h.get?_eq hk]

theorem set (h : s.AgreeExcept ignored t) (k : Key α) (a : α) :
    (s.set k a).AgreeExcept ignored (t.set k a) := by
  refine ⟨fun name hname => ?_, h.palette⟩
  simp only [Store.set, Std.ExtTreeMap.getElem?_insert, h.entries name hname]

/-- A value under an ignored name does not matter. -/
theorem set_of_ignored (s : Store) {k : Key α} (hk : ignored k.name) (a : α) :
    (s.set k a).AgreeExcept ignored s := by
  refine ⟨fun name hname => ?_, rfl⟩
  have hne : k.name ≠ name := by
    rintro rfl
    exact hname hk
  simp [Store.set, Std.ExtTreeMap.getElem?_insert, hne]

theorem modify (h : s.AgreeExcept ignored t) {k : Key α} (hk : ¬ ignored k.name) (f : α → α) :
    (s.modify k f).AgreeExcept ignored (t.modify k f) := by
  rw [Store.modify, Store.modify, h.getD_eq hk]
  exact h.set _ _

theorem modifyPalette (h : s.AgreeExcept ignored t) (f : Palette → Palette) :
    (s.modifyPalette f).AgreeExcept ignored (t.modifyPalette f) :=
  ⟨h.entries, congrArg f h.palette⟩

/-- A value that is taken away leaves the stores in agreement, also if its name is ignored and only
one of them had it. -/
theorem remove (h : s.AgreeExcept ignored t) (k : Key α) :
    (s.remove k).AgreeExcept ignored (t.remove k) := by
  refine ⟨fun name hname => ?_, by unfold Store.remove; split <;> split <;> exact h.palette⟩
  have hentries := h.entries name hname
  by_cases hk : ignored k.name
  · have hne : k.name ≠ name := by
      rintro rfl
      exact hname hk
    unfold Store.remove
    split <;> split <;> simp [Std.ExtTreeMap.getElem?_erase, hne, hentries]
  · unfold Store.remove contains
    rw [h.get?_eq hk]
    split
    · simp only [Std.ExtTreeMap.getElem?_erase, hentries]
    · exact hentries

end Store.AgreeExcept

/-! ### What settings let through -/

/-- The replies after an answer, if answers are allowed. -/
def Settings.answered (s : Settings) (replies : Replies) (answer : String) : Replies :=
  if s.answerColorQueries then replies.emit answer else replies

/-- The clipboard after a text was copied, if that is allowed. -/
def Settings.copied {κ : Type} [Clipboard κ] (s : Settings) (clipboard : κ) (text : String) : κ :=
  if s.clipboardWrites then (Clipboard.setText clipboard text).1 else clipboard

namespace Context

variable {σ κ : Type}

@[simp] theorem toHost_log (ctx : Context σ κ) (e : Event) : (ctx.log e).toHost = ctx.toHost := rfl

/-- A color query does nothing but add a reply. -/
theorem toHost_answerColor (ctx : Context σ κ) (selector : String) (c : Color) :
    (ctx.answerColor selector c).toHost =
      { ctx.toHost with
        replies := ctx.settings.answered ctx.replies (colorAnswer selector c) } := by
  have hsettings : (ctx.log (.colorAnswer (colorAnswer selector c))).settings = ctx.settings := rfl
  simp only [answerColor, hsettings, Settings.answered]
  split <;> rfl

/-- Copying changes nothing but the clipboard. -/
theorem toHost_copy [Clipboard κ] (ctx : Context σ κ) (s : List Char) :
    (ctx.copy s).toHost =
      { ctx.toHost with
        clipboard := (Clipboard.setText ctx.clipboard (String.ofList s)).1 } := by
  simp only [copy]
  split <;> rfl

end Context

/-! ### Likenesses -/

/-- What two hosts have in common: the values of their stores but for some, something about their
screens, their clipboards and their replies, and the limits they set. Whatever an interpreter does
to both preserves it. -/
structure Likeness (σ τ κ μ : Type) [Screen σ] [Screen τ] [Clipboard κ] [Clipboard μ] where
  /-- The names whose values may differ. -/
  ignored : String → Prop
  /-- What the screens have in common. -/
  screen : σ → τ → Prop
  /-- What the clipboards have in common. -/
  clipboard : κ → μ → Prop
  /-- What the replies have in common. -/
  replies : Replies → Replies → Prop
  /-- The settings of the first host. -/
  left : Settings
  /-- The settings of the second host. -/
  right : Settings
  graphicSet_not_ignored : ¬ ignored Key.graphicSet.name
  insertMode_not_ignored : ¬ ignored Key.insertMode.name
  commandLimit_eq : left.commandLimit = right.commandLimit
  clipboardLimit_eq : left.clipboardLimit = right.clipboardLimit
  screen_on : ∀ {s t call}, Call.Permitted call → screen s t → screen (call.on s) (call.on t)
  replies_answered : ∀ {r q} (answer : String),
    replies r q → replies (left.answered r answer) (right.answered q answer)
  clipboard_copied : ∀ {c d} (text : String),
    clipboard c d → clipboard (left.copied c text) (right.copied d text)

namespace Likeness

variable {σ τ κ μ : Type} [Screen σ] [Screen τ] [Clipboard κ] [Clipboard μ]

/-- What any hosts with the same settings have in common. -/
def ofSettings (σ κ : Type) [Screen σ] [Clipboard κ] (settings : Settings) :
    Likeness σ σ κ κ where
  ignored _ := False
  screen _ _ := True
  clipboard _ _ := True
  replies _ _ := True
  left := settings
  right := settings
  graphicSet_not_ignored := not_false
  insertMode_not_ignored := not_false
  commandLimit_eq := rfl
  clipboardLimit_eq := rfl
  screen_on _ _ := trivial
  replies_answered _ _ := trivial
  clipboard_copied _ _ := trivial

/-- What hosts have in common that are the same but for some values and their screens. -/
def ofScreens (κ : Type) [Clipboard κ] (settings : Settings) (ignored : String → Prop)
    (screen : σ → τ → Prop) (graphicSet_not_ignored : ¬ ignored Key.graphicSet.name)
    (insertMode_not_ignored : ¬ ignored Key.insertMode.name)
    (screen_on : ∀ {s t call}, Call.Permitted call → screen s t →
      screen (call.on s) (call.on t)) : Likeness σ τ κ κ where
  ignored
  screen
  clipboard c d := c = d
  replies r q := r = q
  left := settings
  right := settings
  graphicSet_not_ignored
  insertMode_not_ignored
  commandLimit_eq := rfl
  clipboardLimit_eq := rfl
  screen_on
  replies_answered answer h := congrArg (settings.answered · answer) h
  clipboard_copied text h := congrArg (settings.copied · text) h

/-- Two hosts have in common what a likeness asks for. -/
structure Hosts (L : Likeness σ τ κ μ) (a : Host σ κ) (b : Host τ μ) : Prop where
  store : a.store.AgreeExcept L.ignored b.store
  screen : L.screen a.screen b.screen
  clipboard : L.clipboard a.clipboard b.clipboard
  replies : L.replies a.replies b.replies
  left : a.settings = L.left
  right : b.settings = L.right

theorem payloadLimit_eq (L : Likeness σ τ κ μ) : L.left.payloadLimit = L.right.payloadLimit := by
  rw [Settings.payloadLimit, Settings.payloadLimit, L.commandLimit_eq, L.clipboardLimit_eq]

namespace Hosts

variable {L : Likeness σ τ κ μ}

section Parts

variable {a : Host σ κ} {b : Host τ μ}

theorem withStore (h : L.Hosts a b) {s t : Store} (hst : s.AgreeExcept L.ignored t) :
    L.Hosts { a with store := s } { b with store := t } :=
  { h with store := hst }

theorem call (h : L.Hosts a b) (call : Call) (hcall : call.Permitted) :
    L.Hosts { a with screen := call.on a.screen } { b with screen := call.on b.screen } :=
  { h with screen := L.screen_on hcall h.screen }

theorem withClipboard (h : L.Hosts a b) {c : κ} {d : μ} (hcd : L.clipboard c d) :
    L.Hosts { a with clipboard := c } { b with clipboard := d } :=
  { h with clipboard := hcd }

theorem withReplies (h : L.Hosts a b) {r q : Replies} (hrq : L.replies r q) :
    L.Hosts { a with replies := r } { b with replies := q } :=
  { h with replies := hrq }

theorem payloadLimit_eq (h : L.Hosts a b) : a.settings.payloadLimit = b.settings.payloadLimit := by
  rw [h.left, h.right, L.payloadLimit_eq]

theorem commandLimit_eq (h : L.Hosts a b) : a.settings.commandLimit = b.settings.commandLimit := by
  rw [h.left, h.right, L.commandLimit_eq]

theorem clipboardLimit_eq (h : L.Hosts a b) :
    a.settings.clipboardLimit = b.settings.clipboardLimit := by
  rw [h.left, h.right, L.clipboardLimit_eq]

theorem insertMode_eq (h : L.Hosts a b) :
    a.store.getD .insertMode false = b.store.getD .insertMode false :=
  h.store.getD_eq L.insertMode_not_ignored false

theorem copied (h : L.Hosts a b) (text : String) :
    L.clipboard (a.settings.copied a.clipboard text) (b.settings.copied b.clipboard text) := by
  rw [h.left, h.right]
  exact L.clipboard_copied text h.clipboard

theorem answered (h : L.Hosts a b) (answer : String) :
    L.replies (a.settings.answered a.replies answer) (b.settings.answered b.replies answer) := by
  rw [h.left, h.right]
  exact L.replies_answered answer h.replies

end Parts

/-! ### Single operations -/

variable {a : Context σ κ} {b : Context τ μ}

theorem log (h : L.Hosts a.toHost b.toHost) (e f : Event) :
    L.Hosts (a.log e).toHost (b.log f).toHost := h

theorem setKey {α : Type} [Storable α] (h : L.Hosts a.toHost b.toHost) (k : Key α) (v : α) :
    L.Hosts (a.setKey k v).toHost (b.setKey k v).toHost :=
  h.withStore (h.store.set k v)

theorem modifyGraphicSet (h : L.Hosts a.toHost b.toHost) (f : GraphicSet → GraphicSet) :
    L.Hosts (a.modifyGraphicSet f).toHost (b.modifyGraphicSet f).toHost :=
  h.withStore (h.store.modify L.graphicSet_not_ignored f)

theorem modifyPalette (h : L.Hosts a.toHost b.toHost) (f : Palette → Palette) :
    L.Hosts (a.modifyPalette f).toHost (b.modifyPalette f).toHost :=
  h.withStore (h.store.modifyPalette f)

theorem setScreenInsert (h : L.Hosts a.toHost b.toHost) (enabled : Bool) :
    L.Hosts (a.setScreenInsert enabled).toHost (b.setScreenInsert enabled).toHost :=
  h.call (.insert enabled) trivial

theorem executeControl (h : L.Hosts a.toHost b.toHost) (c : Char) :
    L.Hosts (a.executeControl c).toHost (b.executeControl c).toHost := by
  unfold Context.executeControl
  split
  · rename_i hc
    exact h.call (.control c) (List.contains_iff_mem.mp hc)
  · split
    · exact h.modifyGraphicSet _
    · split
      · exact h.modifyGraphicSet _
      · exact h.log _ _

theorem fullReset (h : L.Hosts a.toHost b.toHost) :
    L.Hosts a.fullReset.toHost b.fullReset.toHost := by
  have hstore := ((((((h.store.remove Key.graphicSet).remove Key.insertMode).remove
    Key.cursorVisible).remove Key.applicationKeypad).remove Key.windowTitle).remove
    Key.iconTitle).modifyPalette Palette.reset
  exact (h.withStore hstore).call (.insert false) trivial

/-! ### Commands -/

theorem answerColor (h : L.Hosts a.toHost b.toHost) (selector : String) (c : Color) :
    L.Hosts (a.answerColor selector c).toHost (b.answerColor selector c).toHost := by
  rw [Context.toHost_answerColor, Context.toHost_answerColor]
  exact h.withReplies (h.answered _)

theorem defaultColor (h : L.Hosts a.toHost b.toHost) (which : DefaultColor) (spec : List Char) :
    L.Hosts (a.defaultColor which spec).toHost (b.defaultColor which spec).toHost := by
  unfold Context.defaultColor
  split
  · exact h.modifyPalette _
  · have hlog : ∀ e, L.Hosts (if spec = ['?'] then a else a.log e).toHost
        (if spec = ['?'] then b else b.log e).toHost := by
      intro e
      split
      · exact h
      · exact h.log _ _
    simp only [(hlog _).store.palette]
    exact (hlog _).answerColor _ _

theorem indexedColor (h : L.Hosts a.toHost b.toHost) (i : UInt8) (spec : List Char) :
    L.Hosts (a.indexedColor i spec).toHost (b.indexedColor i spec).toHost := by
  unfold Context.indexedColor
  split
  · rw [h.store.palette]
    exact h.answerColor _ _
  · split
    · exact h.modifyPalette _
    · exact h.log _ _

theorem indexedColors (h : L.Hosts a.toHost b.toHost) (fields : List (List Char)) :
    L.Hosts (a.indexedColors fields).toHost (b.indexedColors fields).toHost := by
  -- The fields are taken two at a time.
  induction a, fields using Context.indexedColors.induct generalizing b with
  | case1 a index spec fields hindex =>
    simp only [Context.indexedColors, hindex]
    exact h.log _ _
  | case2 a index spec fields i hindex ih =>
    simp only [Context.indexedColors, hindex]
    exact ih (h.indexedColor i spec)
  | case3 fields a hfields =>
    rw [Context.indexedColors.eq_2 _ _ hfields, Context.indexedColors.eq_2 _ _ hfields]
    exact h

theorem resetIndexed (h : L.Hosts a.toHost b.toHost) (index : List Char) :
    L.Hosts (a.resetIndexed index).toHost (b.resetIndexed index).toHost := by
  unfold Context.resetIndexed
  split
  · exact h.modifyPalette _
  · exact h.log _ _

/-- What may be done for each element of a list may be done for all of them. -/
theorem foldl {α : Type} {f : Context σ κ → α → Context σ κ} {g : Context τ μ → α → Context τ μ}
    (hfg : ∀ {a b} (x : α), L.Hosts a.toHost b.toHost → L.Hosts (f a x).toHost (g b x).toHost)
    (h : L.Hosts a.toHost b.toHost) (l : List α) :
    L.Hosts (l.foldl f a).toHost (l.foldl g b).toHost := by
  induction l generalizing a b with
  | nil => exact h
  | cons x l ih => exact ih (hfg x h)

/-- A clipboard write that reaches the clipboard of one host, the other, both or none leaves what
they have in common, if each is reached only as its settings allow. -/
theorem copyData (h : L.Hosts a.toHost b.toHost) (e f : Event) (data : List Char) :
    L.Hosts (if a.settings.clipboardWrites then a.copyData data else a.log e).toHost
      (if b.settings.clipboardWrites then b.copyData data else b.log f).toHost := by
  unfold Context.copyData
  rw [h.clipboardLimit_eq]
  by_cases hlong : utf8Length data > b.settings.clipboardLimit.toNat
  · simp only [hlong, if_true]
    split <;> split <;> exact h.log _ _
  · simp only [hlong, if_false]
    cases Base64.decode (encodeUtf8 data) with
    | error error =>
      simp only
      split <;> split <;> exact h.log _ _
    | ok bytes =>
      have hcopied := h.copied (String.ofList (decodeUtf8Lossy bytes))
      unfold Settings.copied at hcopied
      simp only
      split <;> split <;> simp_all only [if_true, if_false, Bool.false_eq_true,
        Context.toHost_copy, Context.toHost_log]
      · exact h.withClipboard hcopied
      · exact h.withClipboard hcopied
      · exact h.withClipboard hcopied

theorem selection (h : L.Hosts a.toHost b.toHost) (argument : List Char) :
    L.Hosts (a.selection argument).toHost (b.selection argument).toHost := by
  unfold Context.selection
  generalize (cutAt? ';' argument).getD (argument, []) = parts
  obtain ⟨target, data⟩ := parts
  simp only
  split
  · exact h.log _ _
  · by_cases hquery : data = ['?']
    · simp only [hquery, if_true]
      split <;> split <;> exact h.log _ _
    · have hcopy := h.copyData .clipboardForbidden .clipboardForbidden data
      simp only [hquery, if_false]
      split <;> split <;> simp_all

theorem apply (h : L.Hosts a.toHost b.toHost) (command : Command) (argument : List Char) :
    L.Hosts (command.apply argument a).toHost (command.apply argument b).toHost := by
  cases command with
  | windowTitle => exact (h.log _ _).setKey _ _
  | iconTitle => exact (h.log _ _).setKey _ _
  | workdir => exact (h.log _ _).setKey _ _
  | hyperlink => exact h.log _ _
  | indexedColors => exact h.indexedColors _
  | defaultColor which => exact h.defaultColor which argument
  | selection => exact h.selection argument
  | resetDefault which => exact h.modifyPalette _
  | resetIndexed =>
    simp only [Command.apply]
    split
    · exact h.modifyPalette _
    · exact h.foldl (fun index h => h.resetIndexed index) _

theorem applyPayload (h : L.Hosts a.toHost b.toHost) (payload : List Char) :
    L.Hosts (a.applyPayload payload).toHost (b.applyPayload payload).toHost := by
  unfold Context.applyPayload
  cases cutAt? ';' payload with
  | none => exact h.log _ _
  | some parts =>
    simp only [h.commandLimit_eq]
    split
    · exact h.log _ _
    · split
      · exact h.apply _ _
      · exact h.log _ _

theorem finishCommand (h : L.Hosts a.toHost b.toHost) (s : CommandString) :
    L.Hosts (s.finish a).toHost (s.finish b).toHost := by
  unfold CommandString.finish
  split
  · exact h.log _ _
  · exact h.applyPayload _

/-! ### Control sequences -/

theorem setMode (h : L.Hosts a.toHost b.toHost) (enabled : Bool) (mode : Nat) :
    L.Hosts (ControlSequence.setMode enabled a mode).toHost
      (ControlSequence.setMode enabled b mode).toHost := by
  unfold ControlSequence.setMode
  split
  · exact ((h.log _ _).setKey _ _).setScreenInsert _
  · exact h.log _ _

theorem setPrivateMode (h : L.Hosts a.toHost b.toHost) (enabled : Bool) (mode : Nat) :
    L.Hosts (ControlSequence.setPrivateMode enabled a mode).toHost
      (ControlSequence.setPrivateMode enabled b mode).toHost := by
  unfold ControlSequence.setPrivateMode
  split
  · exact (h.log _ _).setKey _ _
  · exact h.log _ _

theorem finishControl (h : L.Hosts a.toHost b.toHost) (s : ControlSequence) (c : Char) :
    L.Hosts (s.finish c a).toHost (s.finish c b).toHost := by
  simp only [ControlSequence.finish]
  split
  · exact h.foldl (fun mode h => h.setMode _ mode) _
  · split
    · exact h.foldl (fun mode h => h.setPrivateMode _ mode) _
    · exact h.log _ _

/-! ### Escape sequences -/

theorem finishEscape (h : L.Hosts a.toHost b.toHost) (c : Char) :
    (EscapeSequence.finish c a).1 = (EscapeSequence.finish c b).1 ∧
      L.Hosts (EscapeSequence.finish c a).2.toHost (EscapeSequence.finish c b).2.toHost := by
  unfold EscapeSequence.finish
  split
  · exact ⟨rfl, h⟩
  · exact ⟨rfl, h⟩
  · exact ⟨rfl, h⟩
  · exact ⟨rfl, h⟩
  · exact ⟨rfl, h⟩
  · exact ⟨rfl, h⟩
  · exact ⟨rfl, h⟩
  · exact ⟨rfl, h.modifyGraphicSet _⟩
  · exact ⟨rfl, h.modifyGraphicSet _⟩
  · exact ⟨rfl, h.setKey _ _⟩
  · exact ⟨rfl, h.setKey _ _⟩
  · exact ⟨rfl, h.fullReset⟩
  · exact ⟨rfl, h.log _ _⟩

theorem finishWith (h : L.Hosts a.toHost b.toHost) (intermediate : EscapeSequence.Intermediate)
    (c : Char) :
    L.Hosts (EscapeSequence.finishWith intermediate c a).toHost
      (EscapeSequence.finishWith intermediate c b).toHost := by
  unfold EscapeSequence.finishWith
  split
  · split
    · exact (h.log _ _).modifyGraphicSet _
    · exact h.log _ _
  · exact h.log _ _

end Hosts

/-! ### Steps of the parts -/

/-- Two steps leave a part in the same state, and hosts that are alike. -/
structure Steps {π : Type} (L : Likeness σ τ κ μ) (s : Step π σ κ) (t : Step π τ μ) : Prop where
  state : s.state = t.state
  part : s.part = t.part
  host : L.Hosts s.context.toHost t.context.toHost

variable {L : Likeness σ τ κ μ}

theorem Hosts.escape {a : Context σ κ} {b : Context τ μ} (h : L.Hosts a.toHost b.toHost)
    (e : EscapeSequence) (c : Char) : L.Steps (e.process c a) (e.process c b) := by
  rw [e.process_eq_step, e.process_eq_step]
  cases e.role c with
  | introducer | canceller | intermediate => exact ⟨rfl, rfl, h⟩
  | executed => exact ⟨rfl, rfl, h.executeControl c⟩
  | final =>
    obtain ⟨hstate, hhost⟩ := h.finishEscape c
    exact ⟨hstate, rfl, hhost⟩
  | finalAfter seen => exact ⟨rfl, rfl, h.finishWith seen c⟩

theorem Hosts.control {a : Context σ κ} {b : Context τ μ} (h : L.Hosts a.toHost b.toHost)
    (s : ControlSequence) (c : Char) : L.Steps (s.process c a) (s.process c b) := by
  rw [s.process_eq_step, s.process_eq_step]
  cases s.role c with
  | introducer | canceller | filler | accepted => exact ⟨rfl, rfl, h⟩
  | malformedFinal | overrun => exact ⟨rfl, rfl, h.log _ _⟩
  | executed => exact ⟨rfl, rfl, h.executeControl c⟩
  | final => exact ⟨rfl, rfl, h.finishControl s c⟩

/-! ### Interpretations in progress -/

/-- Two interpretations are at the same point, and their hosts are alike. The run of text that
waits may be written. -/
structure Alike (L : Likeness σ τ κ μ) (x : Progress σ κ) (y : Progress τ μ) : Prop where
  interpreter : x.interpreter = y.interpreter
  printable : ∀ c ∈ x.interpreter.textRun.pending.toList, isControl c = false
  host : L.Hosts x.context.toHost y.context.toHost

namespace Alike

variable {x : Progress σ κ} {y : Progress τ μ}

theorem withState (h : L.Alike x y) (state : Interpreter.State) :
    L.Alike (x.withState state) (y.withState state) where
  interpreter := by rw [Progress.withState, Progress.withState, h.interpreter]
  printable := h.printable
  host := h.host

theorem settle (h : L.Alike x y) : L.Alike x.settle y.settle := by
  obtain ⟨i, a⟩ := x
  obtain ⟨j, b⟩ := y
  obtain ⟨rfl, hprintable, hhost⟩ := h
  simp only at hprintable hhost
  by_cases hempty : i.textRun = .empty
  · simp only [Progress.settle, hempty, TextRun.flush_empty]
    exact ⟨rfl, by simp [TextRun.empty], hhost⟩
  · simp only [Progress.settle, TextRun.flush_of_ne hempty]
    have hne : i.textRun.pending ≠ "" := by
      intro h
      exact hempty (TextRun.isEmpty_iff.mp (by simp [h]))
    refine ⟨rfl, by simp [TextRun.empty], ?_⟩
    exact (hhost.call (.write i.textRun.pending) ⟨hne, hprintable⟩).withStore
      (hhost.store.set _ _)

theorem settleBefore (h : L.Alike x y) (next : Option Char) :
    L.Alike (x.settleBefore next) (y.settleBefore next) := by
  unfold Progress.settleBefore
  split
  · exact h.settle
  · exact h

theorem addText (h : L.Alike x y) {c : Char} (hc : isControl c = false) :
    L.Alike (x.addText c) (y.addText c) := by
  obtain ⟨i, a⟩ := x
  obtain ⟨j, b⟩ := y
  obtain ⟨rfl, hprintable, hhost⟩ := h
  simp only at hprintable hhost
  have hset : a.store.getD Key.graphicSet Storable.initial =
      b.store.getD Key.graphicSet Storable.initial :=
    hhost.store.getD_eq L.graphicSet_not_ignored _
  have hadded : L.Alike
      ⟨{ i with state := .text, textRun := (i.textRun.add c a).1 }, (i.textRun.add c a).2⟩
      ⟨{ i with state := .text, textRun := (i.textRun.add c b).1 }, (i.textRun.add c b).2⟩ := by
    simp only [TextRun.add, Store.update, hset]
    refine ⟨rfl, ?_, hhost.withStore (hhost.store.set _ _)⟩
    intro d hd
    rw [String.toList_push, List.mem_append, List.mem_singleton] at hd
    rcases hd with hd | rfl
    · exact hprintable d hd
    · exact Charset.isControl_translate _ hc
  simp only [Progress.addText, hadded.host.insertMode_eq]
  split
  · exact hadded.settle
  · exact hadded

theorem begin (h : L.Alike x y) (c : Char) : L.Alike (x.begin c) (y.begin c) := by
  cases hc : Opening.ofChar c with
  | text =>
    rw [Progress.begin_of_text _ hc, Progress.begin_of_text _ hc]
    exact h.addText (Opening.isControl_of_ofChar hc)
  | escape | control | command | skipped | nul | del =>
    simp only [Progress.begin, hc]
    exact h.withState _
  | execute =>
    simp only [Progress.begin, hc]
    exact { h.withState .ready with host := h.host.executeControl c }
  | ignored =>
    simp only [Progress.begin, hc]
    exact { h.withState .ready with host := h.host.log _ _ }

theorem tickEscape (h : L.Alike x y) (c : Char) : L.Alike (x.tickEscape c) (y.tickEscape c) := by
  obtain ⟨i, a⟩ := x
  obtain ⟨j, b⟩ := y
  obtain ⟨rfl, hprintable, hhost⟩ := h
  have hstep := hhost.escape i.escape c
  simp only [Progress.tickEscape]
  rw [hstep.state, hstep.part]
  exact ⟨rfl, hprintable, hstep.host⟩

theorem tickControl (h : L.Alike x y) (c : Char) :
    L.Alike (x.tickControl c) (y.tickControl c) := by
  obtain ⟨i, a⟩ := x
  obtain ⟨j, b⟩ := y
  obtain ⟨rfl, hprintable, hhost⟩ := h
  have hstep := hhost.control i.control c
  simp only [Progress.tickControl]
  rw [hstep.state, hstep.part]
  exact ⟨rfl, hprintable, hstep.host⟩

theorem afterString (h : L.Alike x y) (interrupt : Option Char) :
    L.Alike (x.afterString interrupt) (y.afterString interrupt) := by
  cases interrupt with
  | none => exact h.withState .ready
  | some c => exact h.tickEscape c

theorem tickSkipped (h : L.Alike x y) (c : Char) :
    L.Alike (x.tickSkipped c) (y.tickSkipped c) := by
  obtain ⟨i, a⟩ := x
  obtain ⟨j, b⟩ := y
  obtain ⟨rfl, hprintable, hhost⟩ := h
  simp only [Progress.tickSkipped]
  split
  · apply afterString
    exact ⟨rfl, hprintable, hhost.log _ _⟩
  · exact ⟨rfl, hprintable, hhost⟩

theorem tickCommand (h : L.Alike x y) (c : Char) :
    L.Alike (x.tickCommand c) (y.tickCommand c) := by
  obtain ⟨i, a⟩ := x
  obtain ⟨j, b⟩ := y
  obtain ⟨rfl, hprintable, hhost⟩ := h
  simp only [Progress.tickCommand, hhost.payloadLimit_eq]
  split
  · apply afterString
    exact ⟨rfl, hprintable, hhost.finishCommand _⟩
  · exact ⟨rfl, hprintable, hhost⟩

/-- A likeness remains with every character. -/
theorem tick (h : L.Alike x y) (c : Char) : L.Alike (x.tick c) (y.tick c) := by
  unfold Progress.tick
  rw [← h.interpreter]
  split
  · exact (h.settleBefore _).begin c
  · exact (h.settleBefore _).begin c
  · exact h.tickEscape c
  · exact h.tickControl c
  · exact h.tickCommand c
  · exact h.tickSkipped c

/-- A likeness remains. -/
theorem after (h : L.Alike x y) (s : List Char) : L.Alike (x.after s) (y.after s) := by
  induction s generalizing x y with
  | nil => exact h
  | cons c s ih => exact ih (h.tick c)

end Alike

end Likeness

end ControlStream
