import ControlStream.Interpreter.Event
import ControlStream.Replies
import ControlStream.Screen
import ControlStream.Settings
import ControlStream.Store
import ControlStream.Text.ControlChar

/-!
# What an interpreter works on

The interpreter's own state is kept apart from what it changes: the store, the screen, the
clipboard and the replies. These, together with the settings, make up the host. While characters
are interpreted the host is carried along with the events noted so far.

## Main definitions

* `Interpreter.State`: who receives the next character.
* `Host`: the things a control stream acts on, and the settings.
* `Context`: a host and the events noted.
* `Context.executeControl`: the effect of a C0 control character.
* `Step`: what a part of the interpreter returns for a character.
-/

namespace ControlStream

/-- Who receives the next character. -/
inductive Interpreter.State
  /-- Nothing is in progress; the character decides. -/
  | ready
  | text
  | escape
  | control
  | command
  | skipped
  deriving DecidableEq, Inhabited, Repr

namespace Interpreter.State

def name : Interpreter.State → String
  | ready => "Ready"
  | text => "Text"
  | escape => "Esc"
  | control => "Csi"
  | command => "Osc"
  | skipped => "ControlString"

/-- The character is part of a string, which ends at its terminator only. -/
def isString : Interpreter.State → Bool
  | command | skipped => true
  | _ => false

end Interpreter.State

/-- What a control stream acts on. -/
structure Host (σ κ : Type) where
  store : Store
  screen : σ
  clipboard : κ
  replies : Replies
  settings : Settings

/-- A host, with the events noted while it is worked on. -/
structure Context (σ κ : Type) extends Host σ κ where
  events : Array Event

/-- What a part of the interpreter makes of a character: the state for the next character, the
part's own new state, and the new context. -/
structure Step (π σ κ : Type) where
  state : Interpreter.State
  part : π
  context : Context σ κ

namespace Context

variable {σ κ : Type}

def log (ctx : Context σ κ) (e : Event) : Context σ κ := { ctx with events := ctx.events.push e }

def setKey {α : Type} [Storable α] (ctx : Context σ κ) (k : Key α) (a : α) : Context σ κ :=
  { ctx with store := ctx.store.set k a }

def modifyGraphicSet (ctx : Context σ κ) (f : GraphicSet → GraphicSet) : Context σ κ :=
  { ctx with store := ctx.store.modify .graphicSet f }

def modifyPalette (ctx : Context σ κ) (f : Palette → Palette) : Context σ κ :=
  { ctx with store := ctx.store.modifyPalette f }

def setScreenInsert [Screen σ] (ctx : Context σ κ) (enabled : Bool) : Context σ κ :=
  { ctx with screen := Screen.setInsertMode ctx.screen enabled }

def isScreenControl (c : Char) : Bool :=
  [ControlChar.cr, ControlChar.lf, ControlChar.vt, ControlChar.ff, ControlChar.bs,
    ControlChar.tab, ControlChar.bel].contains c

/-- Execute a C0 control character: it moves the cursor of the screen, rings its bell, or shifts to
another character set. -/
def executeControl [Screen σ] (ctx : Context σ κ) (c : Char) : Context σ κ :=
  if isScreenControl c then { ctx with screen := Screen.control ctx.screen c }
  else if c = ControlChar.so then ctx.modifyGraphicSet .shiftOut
  else if c = ControlChar.si then ctx.modifyGraphicSet .shiftIn
  else ctx.log (.ignoredControl c)

end Context

end ControlStream
