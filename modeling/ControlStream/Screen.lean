/-!
# Screens

The interpreter does not know how text is laid out. It hands runs of text and executed control
characters to a screen.

## Main definitions

* `Screen`: what a screen does with text, control characters and the insert mode.
* `Call`, `Transcript`: a screen that only remembers what it was asked to do.
* `TextLog`: a screen that remembers the text and nothing else.
-/

namespace ControlStream

/-- A screen an interpreter can write to. A screen may leave control characters and the insert
mode alone. -/
class Screen (σ : Type) where
  write : σ → String → σ
  /-- Execute a control character: CR, LF, VT, FF, BS, TAB or BEL. -/
  control : σ → Char → σ := fun screen _ => screen
  /-- From now on insert text in front of what is there, or write over it. -/
  setInsertMode : σ → Bool → σ := fun screen _ => screen

inductive Call
  | write (text : String)
  | control (c : Char)
  | insert (enabled : Bool)
  deriving DecidableEq, Repr

/-- A screen that remembers the calls made to it, in order. -/
structure Transcript where
  calls : Array Call
  deriving DecidableEq, Inhabited, Repr

namespace Transcript

def add (t : Transcript) (call : Call) : Transcript := ⟨t.calls.push call⟩

instance : Screen Transcript where
  write t text := t.add (.write text)
  control t c := t.add (.control c)
  setInsertMode t enabled := t.add (.insert enabled)

end Transcript

/-- A screen that remembers the texts written to it and takes no notice of anything else. -/
structure TextLog where
  texts : Array String
  deriving DecidableEq, Inhabited, Repr

instance : Screen TextLog where
  write t text := ⟨t.texts.push text⟩

end ControlStream
