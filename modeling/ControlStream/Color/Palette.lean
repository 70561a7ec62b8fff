import ControlStream.Color.Packed

/-!
# Palettes

A terminal has 256 indexed colors and a default foreground and background. A palette keeps the
colors in force next to the ones it was made with, which the reset operations bring back.

## Main definitions

* `NamedColor`: the sixteen colors of the ANSI set, in palette order.
* `ColorTable`: indexed colors and the two defaults, which may be left to the indexed colors.
* `Palette`: the colors in force and the initial ones.
* `Palette.foreground`, `Palette.background`: the defaults in effect.
-/

namespace ControlStream

/-- The colors of the ANSI set, which are the first sixteen of a palette. -/
inductive NamedColor
  | black | red | green | yellow | blue | magenta | cyan | white
  | brightBlack | brightRed | brightGreen | brightYellow | brightBlue | brightMagenta
  | brightCyan | brightWhite
  deriving DecidableEq, Repr

namespace NamedColor

def all : List NamedColor :=
  [black, red, green, yellow, blue, magenta, cyan, white, brightBlack, brightRed, brightGreen,
    brightYellow, brightBlue, brightMagenta, brightCyan, brightWhite]

def index (c : NamedColor) : UInt8 := UInt8.ofNat c.ctorIdx

def name : NamedColor → String
  | black => "Black"
  | red => "Red"
  | green => "Green"
  | yellow => "Yellow"
  | blue => "Blue"
  | magenta => "Magenta"
  | cyan => "Cyan"
  | white => "White"
  | brightBlack => "BrightBlack"
  | brightRed => "BrightRed"
  | brightGreen => "BrightGreen"
  | brightYellow => "BrightYellow"
  | brightBlue => "BrightBlue"
  | brightMagenta => "BrightMagenta"
  | brightCyan => "BrightCyan"
  | brightWhite => "BrightWhite"

end NamedColor

def standardAnsi : Vector Rgb 16 :=
  #v[⟨0, 0, 0⟩, ⟨205, 0, 0⟩, ⟨0, 205, 0⟩, ⟨205, 205, 0⟩, ⟨0, 0, 238⟩, ⟨205, 0, 205⟩,
    ⟨0, 205, 205⟩, ⟨229, 229, 229⟩, ⟨127, 127, 127⟩, ⟨255, 0, 0⟩, ⟨0, 255, 0⟩, ⟨255, 255, 0⟩,
    ⟨92, 92, 255⟩, ⟨255, 0, 255⟩, ⟨0, 255, 255⟩, ⟨255, 255, 255⟩]

def cubeLevel (i : Nat) : UInt8 :=
  if i = 0 then 0 else UInt8.ofNat (55 + i * 40)

/-- The colors of a palette from 16 on: a cube of six levels for each channel, then 24 grays. -/
def fixedColor (i : Nat) : Color :=
  if i < 232 then
    let n := i - 16
    .ofRgb ⟨cubeLevel (n / 36), cubeLevel (n / 6 % 6), cubeLevel (n % 6)⟩
  else
    let gray := UInt8.ofNat (8 + (i - 232) * 10)
    .ofRgb ⟨gray, gray, gray⟩

structure ColorTable where
  indexed : Vector Color 256
  /-- The default foreground, if it is not the indexed white. -/
  foreground : Option Color
  /-- The default background, if it is not the indexed black. -/
  background : Option Color
  deriving DecidableEq

/-- The colors in force and those the reset operations bring back. -/
structure Palette where
  /-- The colors the palette was made with. -/
  initial : ColorTable
  current : ColorTable
  deriving DecidableEq

namespace Palette

/-- A palette with the given sixteen colors in front and no default colors of its own. -/
def ofAnsi (ansi : Vector Color 16) : Palette :=
  let table : ColorTable :=
    { indexed := Vector.ofFn fun i => if h : i.val < 16 then ansi[i.val] else fixedColor i.val
      foreground := none
      background := none }
  ⟨table, table⟩

def standard : Palette := ofAnsi (standardAnsi.map .ofRgb)

instance : Inhabited Palette := ⟨standard⟩

/-- The palette with the given defaults, also as what the reset operations bring back. -/
def withDefaults (p : Palette) (foreground background : Option Color) : Palette :=
  let foreground := foreground.map Color.masked
  let background := background.map Color.masked
  { initial := { p.initial with foreground, background }
    current := { p.current with foreground, background } }

def get (p : Palette) (i : UInt8) : Color :=
  p.current.indexed.get i.toFin

def getNamed (p : Palette) (c : NamedColor) : Color := p.get c.index

def set (p : Palette) (i : UInt8) (c : Color) : Palette :=
  { p with current.indexed := p.current.indexed.set i.toNat c.masked (UInt8.toNat_lt i) }

def resetIndexed (p : Palette) (i : UInt8) : Palette :=
  { p with
    current.indexed := p.current.indexed.set i.toNat (p.initial.indexed.get i.toFin)
      (UInt8.toNat_lt i) }

def resetAllIndexed (p : Palette) : Palette :=
  { p with current.indexed := p.initial.indexed }

/-- The default foreground: the one set, or the initial one, or else the indexed white. -/
def foreground (p : Palette) : Color := p.current.foreground.getD (p.getNamed .white)

/-- The default background: the one set, or the initial one, or else the indexed black. -/
def background (p : Palette) : Color := p.current.background.getD (p.getNamed .black)

def setForeground (p : Palette) (c : Color) : Palette :=
  { p with current.foreground := some c.masked }

def setBackground (p : Palette) (c : Color) : Palette :=
  { p with current.background := some c.masked }

def resetForeground (p : Palette) : Palette :=
  { p with current.foreground := p.initial.foreground }

def resetBackground (p : Palette) : Palette :=
  { p with current.background := p.initial.background }

def reset (p : Palette) : Palette :=
  p.resetAllIndexed.resetForeground.resetBackground

/-- Bringing back every color leaves exactly the initial ones. -/
theorem reset_eq (p : Palette) : p.reset = ⟨p.initial, p.initial⟩ := rfl

end Palette

end ControlStream
