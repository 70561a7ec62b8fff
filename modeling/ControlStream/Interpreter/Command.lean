import ControlStream.Color.Answer
import ControlStream.Color.Spec
import ControlStream.Interpreter.Context
import ControlStream.Text.Utf8

/-!
# Operating system commands

The payload of a command is a numeric selector, a semicolon and an argument. Commands set titles
and the working directory, set and query colors, and write to the clipboard.

## Main definitions

* `Command`: the commands, with the argument still to be read.
* `Command.ofSelector?`: the command a selector stands for.
* `Command.apply`: the effect of a command.
* `Context.applyPayload`: the effect of a payload.
-/

namespace ControlStream

inductive DefaultColor
  | foreground
  | background
  deriving DecidableEq, Repr

namespace DefaultColor

def selector : DefaultColor → Nat
  | foreground => 10
  | background => 11

def get (which : DefaultColor) (p : Palette) : Color :=
  match which with
  | foreground => p.foreground
  | background => p.background

def set (which : DefaultColor) (c : Color) (p : Palette) : Palette :=
  match which with
  | foreground => p.setForeground c
  | background => p.setBackground c

def reset (which : DefaultColor) (p : Palette) : Palette :=
  match which with
  | foreground => p.resetForeground
  | background => p.resetBackground

end DefaultColor

inductive Command
  | windowTitle
  | iconTitle
  | indexedColors
  | workdir
  | hyperlink
  | defaultColor (which : DefaultColor)
  | selection
  | resetIndexed
  | resetDefault (which : DefaultColor)
  deriving DecidableEq, Repr

namespace Context

variable {σ κ : Type}

def answerColor (ctx : Context σ κ) (selector : String) (c : Color) : Context σ κ :=
  let answer := colorAnswer selector c
  let ctx := ctx.log (.colorAnswer answer)
  if ctx.settings.answerColorQueries then { ctx with replies := ctx.replies.emit answer } else ctx

/-- Set a default color, or answer with the one in effect if the argument spells no color. -/
def defaultColor (ctx : Context σ κ) (which : DefaultColor) (spec : List Char) : Context σ κ :=
  match Color.ofSpec? spec with
  | some c => ctx.modifyPalette (which.set c)
  | none =>
    let ctx :=
      if spec = ['?'] then ctx
      else ctx.log (.unreadableDefault which.selector (String.ofList spec))
    ctx.answerColor (toString which.selector) (which.get ctx.store.palette)

def indexedColor (ctx : Context σ κ) (i : UInt8) (spec : List Char) : Context σ κ :=
  if spec = ['?'] then
    ctx.answerColor s!"4;{i.toNat}" (ctx.store.palette.get i)
  else
    match Color.ofSpec? spec with
    | some c => ctx.modifyPalette (·.set i c)
    | none => ctx.log (.invalidColor (String.ofList spec))

def parseIndex? (s : List Char) : Option UInt8 := (parseNat? 255 s).map UInt8.ofNat

/-- Set or query indexed colors, given as pairs of an index and a color. The first index that is
not one ends the command; an index without a color is left out. -/
def indexedColors (ctx : Context σ κ) : List (List Char) → Context σ κ
  | index :: spec :: fields =>
    match parseIndex? index with
    | none => ctx.log (.invalidIndex 4 (String.ofList index))
    | some i => (ctx.indexedColor i spec).indexedColors fields
  | _ => ctx

def resetIndexed (ctx : Context σ κ) (index : List Char) : Context σ κ :=
  match parseIndex? index with
  | some i => ctx.modifyPalette (·.resetIndexed i)
  | none => ctx.log (.invalidIndex 104 (String.ofList index))

def copy [Clipboard κ] (ctx : Context σ κ) (s : List Char) : Context σ κ :=
  let ctx := ctx.log (.clipboardCopy s.length)
  let (clipboard, result) := Clipboard.setText ctx.clipboard (String.ofList s)
  let ctx := { ctx with clipboard }
  match result with
  | .ok () => ctx
  | .error e => ctx.log (.clipboardFailed e)

def copyData [Clipboard κ] (ctx : Context σ κ) (data : List Char) : Context σ κ :=
  if utf8Length data > ctx.settings.clipboardLimit.toNat then
    ctx.log (.clipboardTooLong (utf8Length data) ctx.settings.clipboardLimit.toNat)
  else
    match Base64.decode (encodeUtf8 data) with
    | .error e => ctx.log (.clipboardNotBase64 e)
    | .ok bytes => ctx.copy (decodeUtf8Lossy bytes)

/-- Write to the clipboard. The argument names the target, which must be the clipboard, and gives
the data; the clipboard cannot be queried. -/
def selection [Clipboard κ] (ctx : Context σ κ) (argument : List Char) : Context σ κ :=
  let (target, data) := (cutAt? ';' argument).getD (argument, [])
  if target ≠ ['c'] then ctx.log (.unknownSelection (String.ofList target) (String.ofList data))
  else if !ctx.settings.clipboardWrites then ctx.log .clipboardForbidden
  else if data = ['?'] then ctx.log .clipboardQuery
  else ctx.copyData data

end Context

namespace Command

variable {σ κ : Type} [Clipboard κ]

def ofNumber? : Nat → Option Command
  | 0 | 2 => some windowTitle
  | 1 => some iconTitle
  | 4 => some indexedColors
  | 7 => some workdir
  | 8 => some hyperlink
  | 10 => some (defaultColor .foreground)
  | 11 => some (defaultColor .background)
  | 52 => some selection
  | 104 => some resetIndexed
  | 110 => some (resetDefault .foreground)
  | 111 => some (resetDefault .background)
  | _ => none

/-- The command of a selector. Selectors have sixteen bits. -/
def ofSelector? (selector : List Char) : Option Command :=
  (parseNat? 65535 selector).bind ofNumber?

def apply (command : Command) (argument : List Char) (ctx : Context σ κ) : Context σ κ :=
  match command with
  | windowTitle =>
    let title := String.ofList argument
    (ctx.log (.windowTitle title)).setKey .windowTitle title
  | iconTitle =>
    let title := String.ofList argument
    (ctx.log (.iconTitle title)).setKey .iconTitle title
  | indexedColors => ctx.indexedColors (fieldsOf ';' argument)
  | workdir =>
    let path := String.ofList argument
    (ctx.log (.workdir path)).setKey .workdir path
  | hyperlink => ctx.log .ignoredHyperlink
  | defaultColor which => ctx.defaultColor which argument
  | selection => ctx.selection argument
  | resetIndexed =>
    if argument = [] then ctx.modifyPalette .resetAllIndexed
    else (fieldsOf ';' argument).foldl Context.resetIndexed ctx
  | resetDefault which => ctx.modifyPalette which.reset

end Command

/-- The selector of clipboard writes, which the general limit does not apply to. -/
def selectionSelector : List Char := ['5', '2']

def Context.applyPayload {σ κ : Type} [Clipboard κ] (ctx : Context σ κ) (payload : List Char) :
    Context σ κ :=
  match cutAt? ';' payload with
  | none => ctx.log (.commandWithoutArgument (String.ofList payload))
  | some (selector, argument) =>
    if selector ≠ selectionSelector ∧ payload.length > ctx.settings.commandLimit.toNat then
      ctx.log (.commandTooLong (String.ofList selector) ctx.settings.commandLimit.toNat)
    else
      match Command.ofSelector? selector with
      | some command => command.apply argument ctx
      | none => ctx.log (.unknownCommand (String.ofList selector))

end ControlStream
