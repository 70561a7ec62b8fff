import ControlStream.Color.Palette

/-!
# Settings

What a control stream may do to a terminal, and the colors the terminal starts with.

## Main definitions

* `ColorScheme`: the initial colors and the palette they make.
* `Settings`: the limits on commands and clipboard writes, and what is allowed.
-/

namespace ControlStream

structure ColorScheme where
  /-- The default foreground, if it is not the indexed white. -/
  foreground : Option Rgb
  /-- The default background, if it is not the indexed black. -/
  background : Option Rgb
  ansi : Vector Rgb 16
  deriving DecidableEq, Repr

namespace ColorScheme

def standard : ColorScheme := ⟨none, none, standardAnsi⟩

def toPalette (s : ColorScheme) : Palette :=
  (Palette.ofAnsi (s.ansi.map .ofRgb)).withDefaults (s.foreground.map .ofRgb)
    (s.background.map .ofRgb)

end ColorScheme

structure Settings where
  clipboardWrites : Bool
  /-- The most bytes of base64 a clipboard write may have. -/
  clipboardLimit : UInt64
  answerColorQueries : Bool
  /-- The most characters any other command may have. -/
  commandLimit : UInt64
  colors : ColorScheme
  deriving DecidableEq, Repr

namespace Settings

/-- Everything allowed, a mebibyte for the clipboard and 65536 characters for other commands. -/
def standard : Settings := ⟨true, 1048576, true, 65536, .standard⟩

instance : Inhabited Settings := ⟨standard⟩

/-- The room in front of the data of a clipboard write, for its selector and target. -/
def selectionPreamble : Nat := 16

/-- The most characters of a command that are kept while it arrives: enough for either limit. -/
def payloadLimit (s : Settings) : Nat :=
  max s.commandLimit.toNat (min (s.clipboardLimit.toNat + selectionPreamble) (Nat.pow 2 64 - 1))

end Settings

end ControlStream
