import ControlStream.Terminal
import ControlStream.Proofs.Likeness

/-!
# Between deliveries

What is left in a terminal once everything that was delivered has been interpreted. Nothing waits
to be read or to be written, and only the part that receives the next character has anything in
progress.

## Main definitions

* `Terminal.Reachable`: terminals that come about by deliveries, resets and changes of their hosts.
* `Terminal.AtRest`: a terminal between two deliveries.
* `Interpreter.Tidy`: what is true of an interpreter after every single character.
* `Likeness.Terminals`: terminals at rest that are alike.
* `Terminal.fresh`: a new interpreter for the same host.

## Main statements

* `Progress.tidy_tick`: a tidy interpreter remains tidy.
* `Terminal.deliver_eq`: a delivery to a terminal at rest, character by character.
* `Terminal.Reachable.atRest`: a terminal is at rest after every delivery and every reset.
* `Likeness.Terminals.writeAll`: terminals that are alike remain so.
* `Terminal.Reachable.reset_as_new`: a terminal that was reset goes on as if it were new.
-/

namespace ControlStream

/-! ### Payloads that are kept -/

/-- The payload of a string that has not ended: its characters are counted, and there are at most
`limit` of them. -/
structure Payload.Within (limit : Nat) (p : Payload) : Prop where
  isComplete : p.isComplete = false
  interrupt : p.interrupt = none
  length_eq : p.length = p.chars.length
  length_le : p.length ≤ limit

namespace Payload.Within

variable {limit : Nat} {p : Payload}

theorem empty (limit n : Nat) : (Payload.empty n).Within limit :=
  ⟨rfl, rfl, rfl, Nat.zero_le _⟩

theorem setLimit (h : p.Within limit) (n : Nat) : (p.setLimit n).Within limit :=
  ⟨h.isComplete, h.interrupt, h.length_eq, h.length_le⟩

theorem keep (h : p.Within limit) (hlimit : p.limit ≤ limit) (c : Char) :
    (p.keep c).Within limit := by
  unfold Payload.keep
  split
  · have hlength := h.length_eq
    refine ⟨h.isComplete, h.interrupt, ?_, ?_⟩
    · simp only [chars, Array.toList_push, List.length_append, List.length_singleton]
      rw [hlength, chars]
    · simp only
      omega
  · exact ⟨h.isComplete, h.interrupt, h.length_eq, h.length_le⟩

/-- Characters are only kept up to the limit. -/
theorem feed (h : p.Within limit) (hlimit : p.limit ≤ limit) {c : Char}
    (hopen : (p.feed c).isComplete = false) : (p.feed c).Within limit := by
  unfold Payload.feed at hopen ⊢
  rw [if_neg (by simp [h.isComplete])] at hopen ⊢
  split at hopen
  · cases hopen
  · rename_i hescaped
    rw [if_neg hescaped]
    split at hopen
    · cases hopen
    · rename_i hend
      rw [if_neg hend]
      split
      · exact ⟨h.isComplete, h.interrupt, h.length_eq, h.length_le⟩
      · exact h.keep hlimit c

end Payload.Within

/-! ### Tidy interpreters -/

namespace Interpreter

structure Clear (i : Interpreter) : Prop where
  escape : i.escape = .initial
  control : i.control = .initial
  command : i.command.payload = .empty i.command.payload.limit
  skipped : i.skipped = .initial

/-- Only the part named by the state has anything in progress, and the strings are within their
limits. A skipped string keeps no characters. -/
structure Tidy (limit : Nat) (i : Interpreter) : Prop where
  keepsText : i.KeepsText
  escape : i.state = .escape ∨ i.escape = .initial
  control : i.state = .control ∨ i.control = .initial
  command : i.state = .command ∨ i.command.payload = .empty i.command.payload.limit
  skipped : i.state = .skipped ∨ i.skipped = .initial
  payload : i.command.payload.Within limit
  skippedPayload : i.skipped.payload.Within 0
  skippedLimit : i.skipped.payload.limit = 0

variable {limit : Nat} {i : Interpreter}

theorem Clear.tidy (h : i.Clear) (htext : i.KeepsText) : i.Tidy limit where
  keepsText := htext
  escape := .inr h.escape
  control := .inr h.control
  command := .inr h.command
  skipped := .inr h.skipped
  payload := h.command ▸ Payload.Within.empty _ _
  skippedPayload := h.skipped ▸ Payload.Within.empty _ _
  skippedLimit := by rw [h.skipped]; rfl

theorem Tidy.clear (h : i.Tidy limit) (hstate : i.state = .ready ∨ i.state = .text) :
    i.Clear where
  escape := h.escape.resolve_left fun h => by simp [h] at hstate
  control := h.control.resolve_left fun h => by simp [h] at hstate
  command := h.command.resolve_left fun h => by simp [h] at hstate
  skipped := h.skipped.resolve_left fun h => by simp [h] at hstate

/-- Text does not concern the other parts. -/
theorem Clear.withText (h : i.Clear) (state : State) (textRun : TextRun) :
    ({ i with state, textRun } : Interpreter).Clear :=
  ⟨h.escape, h.control, h.command, h.skipped⟩

theorem tidy_initial (limit : Nat) : initial.Tidy limit :=
  Clear.tidy ⟨rfl, rfl, rfl, rfl⟩ (.inl rfl)

/-- A reset leaves at most the limit of the commands behind. -/
theorem tidy_reset (i : Interpreter) (h : i.skipped.payload.limit = 0) (limit : Nat) :
    i.reset.Tidy limit := by
  refine Clear.tidy ⟨rfl, rfl, rfl, ?_⟩ (.inl rfl)
  simp only [reset, SkippedString.reset, Payload.reset, h]
  rfl

end Interpreter

namespace Progress

variable {σ κ : Type} [Screen σ] {x : Progress σ κ} {limit : Nat}

theorem clear_settle (h : x.interpreter.Clear) : x.settle.interpreter.Clear :=
  h.withText _ _

theorem clear_settleBefore (h : x.interpreter.Clear) (next : Option Char) :
    (x.settleBefore next).interpreter.Clear := by
  unfold settleBefore
  split
  · exact clear_settle h
  · exact h

theorem clear_begin (h : x.interpreter.Clear) (c : Char) : (x.begin c).interpreter.Clear := by
  cases hc : Opening.ofChar c with
  | text =>
    rw [begin_of_text _ hc]
    simp only [addText]
    split
    · exact clear_settle (h.withText _ _)
    · exact h.withText _ _
  | escape | control | command | skipped | nul | del | execute | ignored =>
    simp only [begin, hc]
    exact h.withText _ _

theorem tidy_settle (h : x.interpreter.Tidy limit) : x.settle.interpreter.Tidy limit := by
  by_cases htext : x.interpreter.state = .ready ∨ x.interpreter.state = .text
  · exact (clear_settle (h.clear htext)).tidy x.textDone_settle.keepsText
  · rw [not_or] at htext
    rw [settle_of_textDone (h.keepsText.textDone htext.1 htext.2)]
    exact h

/-- An escape sequence that goes on or ends leaves the other parts alone. -/
theorem tidy_tickEscape (h : (x.withState .escape).interpreter.Tidy limit) (c : Char) :
    (x.tickEscape c).interpreter.Tidy limit := by
  have htext : x.interpreter.textRun = .empty :=
    (h.keepsText.textDone (by simp [withState]) (by simp [withState])).textRun
  have hcontrol := h.control.resolve_left (by simp [withState])
  have hcommand := h.command.resolve_left (by simp [withState])
  have hskipped := h.skipped.resolve_left (by simp [withState])
  rcases x.interpreter.escape.process_spec c x.context with hstate | ⟨-, hpart⟩
  · exact ⟨.inr (.inr htext), .inl hstate, .inr hcontrol, .inr hcommand, .inr hskipped, h.payload,
      h.skippedPayload, h.skippedLimit⟩
  · exact Interpreter.Clear.tidy ⟨hpart, hcontrol, hcommand, hskipped⟩ (.inr (.inr htext))

/-- A control sequence that goes on or ends leaves the other parts alone. -/
theorem tidy_tickControl (h : x.interpreter.Tidy limit) (hstate : x.interpreter.state = .control)
    (c : Char) : (x.tickControl c).interpreter.Tidy limit := by
  have htext := (h.keepsText.textDone (by simp [hstate]) (by simp [hstate])).textRun
  have hescape := h.escape.resolve_left (by simp [hstate])
  have hcommand := h.command.resolve_left (by simp [hstate])
  have hskipped := h.skipped.resolve_left (by simp [hstate])
  rcases x.interpreter.control.process_spec c x.context with hnext | ⟨-, hpart⟩
  · exact ⟨.inr (.inr htext), .inr hescape, .inl hnext, .inr hcommand, .inr hskipped, h.payload,
      h.skippedPayload, h.skippedLimit⟩
  · exact Interpreter.Clear.tidy ⟨hescape, hpart, hcommand, hskipped⟩ (.inr (.inr htext))

/-- After a string nothing is in progress but the escape sequence that interrupted it. -/
theorem tidy_afterString (h : x.interpreter.Clear) (htext : x.interpreter.textRun = .empty)
    (interrupt : Option Char) : (x.afterString interrupt).interpreter.Tidy limit := by
  cases interrupt with
  | none => exact Interpreter.Clear.tidy (h.withText _ _) (.inl rfl)
  | some c =>
    exact tidy_tickEscape (Interpreter.Clear.tidy (h.withText _ _) (.inr (.inr htext))) c

theorem tidy_tickSkipped (h : x.interpreter.Tidy limit)
    (hstate : x.interpreter.state = .skipped) (c : Char) :
    (x.tickSkipped c).interpreter.Tidy limit := by
  have htext := (h.keepsText.textDone (by simp [hstate]) (by simp [hstate])).textRun
  have hescape := h.escape.resolve_left (by simp [hstate])
  have hcontrol := h.control.resolve_left (by simp [hstate])
  have hcommand := h.command.resolve_left (by simp [hstate])
  have hlimit : (x.interpreter.skipped.payload.feed c).limit = 0 := by
    rw [Payload.limit_feed, h.skippedLimit]
  simp only [tickSkipped]
  split
  · apply tidy_afterString
    · refine ⟨hescape, hcontrol, hcommand, ?_⟩
      simp only [Payload.reset, hlimit]
      rfl
    · exact htext
  · rename_i hopen
    have hwithin := h.skippedPayload.feed (Nat.le_of_eq h.skippedLimit)
      (Payload.isComplete_eq_false hopen)
    exact ⟨.inr (.inr htext), .inr hescape, .inr hcontrol, .inr hcommand, .inl rfl, h.payload,
      hwithin, hlimit⟩

variable [Clipboard κ]

theorem tidy_tickCommand (h : x.interpreter.Tidy x.context.settings.payloadLimit)
    (hstate : x.interpreter.state = .command) (c : Char) :
    (x.tickCommand c).interpreter.Tidy x.context.settings.payloadLimit := by
  have htext := (h.keepsText.textDone (by simp [hstate]) (by simp [hstate])).textRun
  have hescape := h.escape.resolve_left (by simp [hstate])
  have hcontrol := h.control.resolve_left (by simp [hstate])
  have hskipped := h.skipped.resolve_left (by simp [hstate])
  simp only [tickCommand]
  split
  · apply tidy_afterString
    · exact ⟨hescape, hcontrol, rfl, hskipped⟩
    · exact htext
  · rename_i hopen
    have hwithin := (h.payload.setLimit x.context.settings.payloadLimit).feed (Nat.le_refl _)
      (Payload.isComplete_eq_false hopen)
    exact ⟨.inr (.inr htext), .inr hescape, .inr hcontrol, .inl rfl, .inr hskipped, hwithin,
      h.skippedPayload, h.skippedLimit⟩

/-- Every character leaves a tidy interpreter tidy. -/
theorem tidy_tick (h : x.interpreter.Tidy x.context.settings.payloadLimit) (c : Char) :
    (x.tick c).interpreter.Tidy x.context.settings.payloadLimit := by
  have hkeeps := keepsText_tick h.keepsText c
  cases hstate : x.interpreter.state with
  | ready | text =>
    have hclear := h.clear (by simp [hstate])
    rw [tick, hstate] at hkeeps ⊢
    exact (clear_begin (clear_settleBefore hclear _) c).tidy hkeeps
  | escape =>
    have hescape : x.withState .escape = x := by rw [withState, ← hstate]
    rw [tick, hstate]
    exact tidy_tickEscape (hescape ▸ h) c
  | control =>
    rw [tick, hstate]
    exact tidy_tickControl h hstate c
  | command =>
    rw [tick, hstate]
    exact tidy_tickCommand h hstate c
  | skipped =>
    rw [tick, hstate]
    exact tidy_tickSkipped h hstate c

end Progress

/-! ### Settings stay -/

/-- No run of text that waits is one that may be written. -/
theorem Likeness.Alike.of_textDone {σ τ κ μ : Type} [Screen σ] [Screen τ] [Clipboard κ]
    [Clipboard μ] {L : Likeness σ τ κ μ} {i : Interpreter} (h : i.TextDone) {a : Context σ κ}
    {b : Context τ μ} (hhost : L.Hosts a.toHost b.toHost) : L.Alike ⟨i, a⟩ ⟨i, b⟩ :=
  ⟨rfl, by simp [h.textRun, TextRun.empty], hhost⟩

namespace Progress

variable {σ κ : Type} [Screen σ] [Clipboard κ] {x : Progress σ κ}

theorem alike_ofSettings (h : x.interpreter.TextDone) :
    (Likeness.ofSettings σ κ x.context.settings).Alike x x :=
  .of_textDone h ⟨.refl _ _, trivial, trivial, trivial, rfl, rfl⟩

/-- Several characters leave a tidy interpreter tidy. -/
theorem tidy_after {settings : Settings} (hx : (Likeness.ofSettings σ κ settings).Alike x x)
    (h : x.interpreter.Tidy settings.payloadLimit) (s : List Char) :
    (x.after s).interpreter.Tidy settings.payloadLimit := by
  induction s generalizing x with
  | nil => exact h
  | cons c s ih =>
    have hsettings : x.context.settings = settings := hx.host.left
    refine ih (hx.tick c) ?_
    have htick := tidy_tick (hsettings.symm ▸ h) c
    rwa [hsettings] at htick

end Progress

/-! ### Terminals at rest -/

namespace Terminal

variable {σ κ : Type}

/-- A terminal between two deliveries: nothing waits to be read or to be written, and what is in
progress is tidy. -/
structure AtRest (t : Terminal σ κ) : Prop where
  input : t.input = .empty
  textDone : t.interpreter.TextDone
  tidy : t.interpreter.Tidy t.host.settings.payloadLimit

theorem AtRest.reset {t : Terminal σ κ} (h : t.AtRest) : t.reset.AtRest :=
  ⟨rfl, ⟨by simp [Terminal.reset, Interpreter.reset], rfl⟩,
    Interpreter.tidy_reset _ h.tidy.skippedLimit _⟩

/-- A terminal before the first character of a delivery, with no events noted. -/
def progress (t : Terminal σ κ) : Progress σ κ := ⟨t.interpreter, { t.host with events := #[] }⟩

variable [Screen σ] [Clipboard κ]

/-- A delivery to a terminal at rest, character by character. -/
theorem deliver_eq {t : Terminal σ κ} (h : t.AtRest) (s : List Char) :
    t.deliver s =
      (⟨.empty, (t.progress.after s).settle.interpreter,
        (t.progress.after s).settle.context.toHost⟩,
        (t.progress.after s).settle.context.events) := by
  have hrun := Progress.runAll_eq_after (x := t.progress) h.textDone s
  have hfeed : t.input.feed s = ⟨none, s⟩ := by rw [h.input]; rfl
  simp only [deliver, hfeed]
  exact congrArg (fun d : Delivery σ κ =>
    ((⟨d.input, d.interpreter, d.context.toHost⟩ : Terminal σ κ), d.context.events)) hrun

theorem write_eq {t : Terminal σ κ} (h : t.AtRest) (s : List Char) :
    t.write s =
      ⟨.empty, (t.progress.after s).settle.interpreter,
        (t.progress.after s).settle.context.toHost⟩ := by
  rw [write, deliver_eq h]

theorem AtRest.write {t : Terminal σ κ} (h : t.AtRest) (s : List Char) : (t.write s).AtRest := by
  have hx := Progress.alike_ofSettings (x := t.progress) h.textDone
  have hsettings : (t.progress.after s).settle.context.settings = t.host.settings :=
    (hx.after s).settle.host.left
  rw [write_eq h]
  refine ⟨rfl, Progress.textDone_settle _, ?_⟩
  simp only [hsettings]
  exact Progress.tidy_settle (Progress.tidy_after hx h.tidy s)

theorem AtRest.writeAll {t : Terminal σ κ} (h : t.AtRest) (pieces : List (List Char)) :
    (t.writeAll pieces).AtRest := by
  induction pieces generalizing t with
  | nil => exact h
  | cons s pieces ih => exact ih (h.write s)

/-- Terminals that come about by deliveries and resets, while their owners may change the store and
the screen and take the replies. -/
inductive Reachable : Terminal σ κ → Prop
  /-- A terminal to which nothing was delivered. -/
  | onScreen (screen : σ) (clipboard : κ) (settings : Settings) :
    Reachable (.onScreen screen clipboard settings)
  /-- A terminal to which a piece of text was delivered. -/
  | write {t : Terminal σ κ} (h : Reachable t) (s : List Char) : Reachable (t.write s)
  /-- A terminal that was reset. -/
  | reset {t : Terminal σ κ} (h : Reachable t) : Reachable t.reset
  /-- A terminal whose owner has changed the store. -/
  | modifyStore {t : Terminal σ κ} (h : Reachable t) (f : Store → Store) :
    Reachable (t.modifyStore f)
  /-- A terminal whose owner has changed the screen. -/
  | modifyScreen {t : Terminal σ κ} (h : Reachable t) (f : σ → σ) : Reachable (t.modifyScreen f)
  /-- A terminal whose owner has taken the replies. -/
  | takeReplies {t : Terminal σ κ} (h : Reachable t) : Reachable t.takeReplies.2

/-- A terminal is at rest after every delivery and every reset. -/
theorem Reachable.atRest {t : Terminal σ κ} (h : t.Reachable) : t.AtRest := by
  induction h with
  | onScreen screen clipboard settings =>
    exact ⟨rfl, ⟨by simp [Terminal.onScreen, Interpreter.initial], rfl⟩,
      Interpreter.tidy_initial _⟩
  | write _ s ih => exact ih.write s
  | reset _ ih => exact ih.reset
  | modifyStore _ f ih => exact ⟨ih.input, ih.textDone, ih.tidy⟩
  | modifyScreen _ f ih => exact ⟨ih.input, ih.textDone, ih.tidy⟩
  | takeReplies _ ih => exact ⟨ih.input, ih.textDone, ih.tidy⟩

end Terminal

/-! ### Terminals that are alike -/

namespace Likeness

variable {σ τ κ μ : Type} [Screen σ] [Screen τ] [Clipboard κ] [Clipboard μ]

structure Terminals (L : Likeness σ τ κ μ) (t : Terminal σ κ) (u : Terminal τ μ) : Prop where
  left : t.AtRest
  right : u.AtRest
  interpreter : t.interpreter = u.interpreter
  host : L.Hosts t.host u.host

namespace Terminals

variable {L : Likeness σ τ κ μ} {t : Terminal σ κ} {u : Terminal τ μ}

/-- Terminals that are alike differ in nothing but their hosts. -/
theorem eq_mk (h : L.Terminals t u) : u = ⟨t.input, t.interpreter, u.host⟩ := by
  rw [h.interpreter, h.left.input, ← h.right.input]

theorem progress (h : L.Terminals t u) : L.Alike t.progress u.progress where
  interpreter := h.interpreter
  printable := by simp [Terminal.progress, h.left.textDone.textRun, TextRun.empty]
  host := h.host

/-- A likeness remains with every delivery. -/
theorem write (h : L.Terminals t u) (s : List Char) : L.Terminals (t.write s) (u.write s) := by
  have halike := (h.progress.after s).settle
  refine ⟨h.left.write s, h.right.write s, ?_, ?_⟩
  · rw [Terminal.write_eq h.left, Terminal.write_eq h.right]
    exact halike.interpreter
  · rw [Terminal.write_eq h.left, Terminal.write_eq h.right]
    exact halike.host

theorem writeAll (h : L.Terminals t u) (pieces : List (List Char)) :
    L.Terminals (t.writeAll pieces) (u.writeAll pieces) := by
  induction pieces generalizing t u with
  | nil => exact h
  | cons s pieces ih => exact ih (h.write s)

end Terminals

end Likeness

/-! ### The limit of a command is noted anew -/

/-- The same interpreter with another limit noted for the payload of a command. -/
def Interpreter.withLimit (i : Interpreter) (limit : Nat) : Interpreter :=
  { i with command.payload.limit := limit }

namespace Progress

variable {σ κ : Type}

def withLimit (x : Progress σ κ) (limit : Nat) : Progress σ κ :=
  ⟨x.interpreter.withLimit limit, x.context⟩

@[simp] theorem withLimit_withLimit (x : Progress σ κ) (n m : Nat) :
    (x.withLimit n).withLimit m = x.withLimit m := rfl

variable [Screen σ]

theorem settle_withLimit (x : Progress σ κ) (n : Nat) :
    (x.withLimit n).settle = x.settle.withLimit n := rfl

theorem settleBefore_withLimit (x : Progress σ κ) (n : Nat) (next : Option Char) :
    (x.withLimit n).settleBefore next = (x.settleBefore next).withLimit n := by
  unfold settleBefore
  split <;> rfl

theorem begin_withLimit (x : Progress σ κ) (n : Nat) (c : Char) :
    (x.withLimit n).begin c = (x.begin c).withLimit n := by
  cases hc : Opening.ofChar c with
  | text =>
    rw [begin_of_text _ hc, begin_of_text _ hc]
    have htextRun : (x.withLimit n).interpreter.textRun = x.interpreter.textRun := rfl
    have hcontext : (x.withLimit n).context = x.context := rfl
    simp only [addText, htextRun, hcontext]
    split <;> rfl
  | escape | control | command | skipped | nul | del | execute | ignored =>
    simp only [begin, hc]
    rfl

theorem afterString_withLimit (x : Progress σ κ) (n : Nat) (interrupt : Option Char) :
    (x.withLimit n).afterString interrupt = (x.afterString interrupt).withLimit n := by
  cases interrupt <;> rfl

theorem tickSkipped_withLimit (x : Progress σ κ) (n : Nat) (c : Char) :
    (x.withLimit n).tickSkipped c = (x.tickSkipped c).withLimit n := by
  have hskipped : (x.withLimit n).interpreter.skipped = x.interpreter.skipped := rfl
  simp only [tickSkipped, hskipped]
  split
  · rw [← afterString_withLimit]
    rfl
  · rfl

variable [Clipboard κ]

/-- The limit noted for the payload of a command makes no difference to what a character does: it
is noted anew before the character is taken. -/
theorem tick_withLimit (x : Progress σ κ) (n m : Nat) (c : Char) :
    ((x.withLimit n).tick c).withLimit m = (x.tick c).withLimit m := by
  have hstate : (x.withLimit n).interpreter.state = x.interpreter.state := rfl
  unfold tick
  rw [hstate]
  split
  · rw [settleBefore_withLimit, begin_withLimit, withLimit_withLimit]
  · rw [settleBefore_withLimit, begin_withLimit, withLimit_withLimit]
  · rfl
  · rfl
  · rfl
  · rw [tickSkipped_withLimit, withLimit_withLimit]

theorem after_withLimit {x y : Progress σ κ} {n : Nat} (h : x.withLimit n = y.withLimit n)
    (s : List Char) : (x.after s).withLimit n = (y.after s).withLimit n := by
  induction s generalizing x y with
  | nil => exact h
  | cons c s ih =>
    refine ih ?_
    calc (x.tick c).withLimit n
        = ((x.withLimit n).tick c).withLimit n := (tick_withLimit x n n c).symm
      _ = ((y.withLimit n).tick c).withLimit n := by rw [h]
      _ = (y.tick c).withLimit n := tick_withLimit y n n c

end Progress

/-! ### After a reset -/

namespace Terminal

variable {σ κ : Type}

def withLimit (t : Terminal σ κ) (limit : Nat) : Terminal σ κ :=
  { t with interpreter := t.interpreter.withLimit limit }

def fresh (t : Terminal σ κ) : Terminal σ κ := ⟨.empty, .initial, t.host⟩

theorem atRest_fresh (t : Terminal σ κ) : t.fresh.AtRest :=
  ⟨rfl, ⟨by simp [fresh, Interpreter.initial], rfl⟩, Interpreter.tidy_initial _⟩

/-- With nothing in progress a reset changes nothing. -/
theorem reset_of_ready {t : Terminal σ κ} (h : t.AtRest) (hstate : t.state = .ready) :
    t.reset = t := by
  obtain ⟨input, ⟨state, textRun, escape, control, ⟨command⟩, skipped⟩, host⟩ := t
  obtain ⟨rfl, ⟨-, rfl⟩, htidy⟩ := h
  cases hstate
  obtain ⟨rfl, rfl, hcommand, rfl⟩ := htidy.clear (.inl rfl)
  simp only at hcommand
  simp only [reset, Interpreter.reset, CommandString.reset, Payload.reset, ← hcommand]
  rfl

/-- After a reset an interpreter is like a new one, but for a limit that has been noted. -/
theorem withLimit_reset {t : Terminal σ κ} (h : t.AtRest) (n : Nat) :
    t.reset.withLimit n = t.fresh.withLimit n := by
  have hskipped : t.interpreter.skipped.reset = .initial := by
    rw [SkippedString.reset, Payload.reset, h.tidy.skippedLimit]
    rfl
  simp only [withLimit, reset, fresh, Interpreter.reset, Interpreter.withLimit, hskipped]
  rfl

variable [Screen σ] [Clipboard κ]

/-- Terminals that differ in the limit noted for the payload of a command note the same events and
still differ in nothing else after a delivery. -/
theorem deliver_withLimit {t u : Terminal σ κ} (ht : t.AtRest) (hu : u.AtRest) {n : Nat}
    (h : t.withLimit n = u.withLimit n) (s : List Char) :
    (t.write s).withLimit n = (u.write s).withLimit n ∧ (t.deliver s).2 = (u.deliver s).2 := by
  have hprogress : t.progress.withLimit n = u.progress.withLimit n := by
    obtain ⟨-, hinterpreter, hhost⟩ := Terminal.mk.inj h
    rw [progress, progress, Progress.withLimit, Progress.withLimit, hinterpreter, hhost]
  have hsettle : (t.progress.after s).settle.withLimit n =
      (u.progress.after s).settle.withLimit n := by
    rw [← Progress.settle_withLimit, ← Progress.settle_withLimit,
      Progress.after_withLimit hprogress]
  have hcontext := congrArg Progress.context hsettle
  have hinterpreter := congrArg Progress.interpreter hsettle
  simp only [Progress.withLimit] at hcontext hinterpreter
  rw [write_eq ht, write_eq hu, deliver_eq ht, deliver_eq hu]
  simp only [withLimit, hcontext, hinterpreter, and_self]

theorem writeAll_withLimit {t u : Terminal σ κ} (ht : t.AtRest) (hu : u.AtRest) {n : Nat}
    (h : t.withLimit n = u.withLimit n) (pieces : List (List Char)) :
    (t.writeAll pieces).withLimit n = (u.writeAll pieces).withLimit n := by
  induction pieces generalizing t u with
  | nil => exact h
  | cons s pieces ih => exact ih (ht.write s) (hu.write s) (deliver_withLimit ht hu h s).1

/-- A terminal is at rest after whatever has happened to it. With nothing in progress a reset
changes nothing; and whatever was in progress, after a reset all that is delivered in whatever
pieces has the effect and the events it would have with a new interpreter. -/
theorem Reachable.reset_as_new {t : Terminal σ κ} (h : t.Reachable) :
    t.AtRest ∧ (t.state = .ready → t.reset = t) ∧
      ∀ (pieces : List (List Char)) (s : List Char),
        (t.reset.writeAll pieces).withLimit 0 = (t.fresh.writeAll pieces).withLimit 0 ∧
        ((t.reset.writeAll pieces).deliver s).2 = ((t.fresh.writeAll pieces).deliver s).2 := by
  refine ⟨h.atRest, reset_of_ready h.atRest, fun pieces s => ?_⟩
  have hreset := h.atRest.reset
  have hfresh := t.atRest_fresh
  have hpieces := writeAll_withLimit hreset hfresh (withLimit_reset h.atRest 0) pieces
  exact ⟨hpieces,
    (deliver_withLimit (hreset.writeAll pieces) (hfresh.writeAll pieces) hpieces s).2⟩

/-- A terminal in the middle of a command, with the beginning of another delivered after a
reset. -/
theorem reset_as_new_command :
    let t := (onPage (.empty 80) .standard).write "a\x1b]0;title".toList
    t.Reachable ∧ t.state = .command ∧ t.AtRest ∧
      ((t.reset.writeAll [['b', '\x1b']]).deliver ['c']).2 =
        ((t.fresh.writeAll [['b', '\x1b']]).deliver ['c']).2 := by
  have hstart : (onPage (.empty 80) .standard).Reachable := .onScreen _ _ _
  have hreachable := hstart.write "a\x1b]0;title".toList
  have hstate : ((onPage (.empty 80) .standard).write "a\x1b]0;title".toList).state = .command := by
    rw [state, write_eq hstart.atRest]
    rfl
  obtain ⟨hrest, -, hnew⟩ := Reachable.reset_as_new hreachable
  exact ⟨hreachable, hstate, hrest, (hnew _ _).2⟩

end Terminal

end ControlStream
