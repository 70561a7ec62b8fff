import ControlStream.Interpreter.Context

/-!
# Escape sequences

What follows an ESC: any number of intermediates and a final character. A single intermediate that
names one of the slots G0 to G3 makes the final character a designation; otherwise intermediates
only cause the sequence to be ignored.

## Main definitions

* `EscapeSequence`: the intermediate that decides what the final character means.
* `EscapeSequence.process`: take a character.
* `Context.fullReset`: bring the terminal back to its initial state.
-/

namespace ControlStream

inductive EscapeSequence.Intermediate
  | designate (slot : UInt8)
  /-- The sequence is ignored. -/
  | other (c : Char)
  deriving DecidableEq, Repr

structure EscapeSequence where
  intermediate : Option EscapeSequence.Intermediate
  deriving DecidableEq, Inhabited, Repr

/-- Bring back the initial character sets, modes, titles and colors. The working directory and the
text written last stay. -/
def Context.fullReset {σ κ : Type} [Screen σ] (ctx : Context σ κ) : Context σ κ :=
  let store := ctx.store
    |>.remove Key.graphicSet
    |>.remove Key.insertMode
    |>.remove Key.cursorVisible
    |>.remove Key.applicationKeypad
    |>.remove Key.windowTitle
    |>.remove Key.iconTitle
    |>.modifyPalette Palette.reset
  { ctx.log .fullReset with store }.setScreenInsert false

namespace EscapeSequence

variable {σ κ : Type} [Screen σ]

def initial : EscapeSequence := ⟨none⟩

/-- The slot an intermediate designates into. -/
def slotOf? : Char → Option UInt8
  | '(' => some 0
  | ')' => some 1
  | '*' => some 2
  | '+' => some 3
  | _ => none

def Intermediate.ofChar (c : Char) : Intermediate :=
  match slotOf? c with
  | some slot => .designate slot
  | none => .other c

def finish (c : Char) (ctx : Context σ κ) : Interpreter.State × Context σ κ :=
  match c with
  | '[' => (.control, ctx)
  | ']' => (.command, ctx)
  | 'P' | 'X' | '^' | '_' => (.skipped, ctx)
  | '\\' => (.ready, ctx)
  | 'N' => (.ready, ctx.modifyGraphicSet (·.single 2))
  | 'O' => (.ready, ctx.modifyGraphicSet (·.single 3))
  | '=' => (.ready, ctx.setKey .applicationKeypad true)
  | '>' => (.ready, ctx.setKey .applicationKeypad false)
  | 'c' => (.ready, ctx.fullReset)
  | c => (.ready, ctx.log (.ignoredEscape c))

def finishWith (intermediate : Intermediate) (c : Char) (ctx : Context σ κ) : Context σ κ :=
  match intermediate with
  | .designate slot =>
    if isGraphicFinal c then
      let charset := Charset.ofDesignation c
      (ctx.log (.designated slot charset)).modifyGraphicSet (·.designate slot charset)
    else ctx.log (.ignoredDesignation slot c)
  | .other first => ctx.log (.ignoredIntermediate first c)

/-- Take a character. ESC starts over, CAN and SUB end the sequence, and other C0 characters but
NUL are executed as if they had come before it. -/
def process (escape : EscapeSequence) (c : Char) (ctx : Context σ κ) :
    Step EscapeSequence σ κ :=
  if c = ControlChar.esc then ⟨.escape, initial, ctx⟩
  else if c = ControlChar.can ∨ c = ControlChar.sub then ⟨.ready, initial, ctx⟩
  else if isExecutable c then ⟨.escape, escape, ctx.executeControl c⟩
  else
    match escape.intermediate with
    | none =>
      if isIntermediate c then ⟨.escape, ⟨some (.ofChar c)⟩, ctx⟩
      else
        let (state, ctx) := finish c ctx
        ⟨state, initial, ctx⟩
    | some intermediate =>
      if isIntermediate c then ⟨.escape, ⟨some (.other c)⟩, ctx⟩
      else ⟨.ready, initial, finishWith intermediate c ctx⟩

end EscapeSequence

end ControlStream
