import ControlStream.Text.ControlChar

/-!
# Graphic character sets

A terminal keeps four designated character sets, G0 to G3, and sends every printable character
through the one in use before it reaches the screen. Two sets besides ASCII are known: the DEC
line drawing characters and the national set of the United Kingdom.

## Main definitions

* `Charset`: the known character sets, with `Charset.ofDesignation` and `Charset.translate`.
* `GraphicSet`: the designations of G0 to G3, the one shifted in, and a pending single shift.
* `GraphicSet.translate`: send one character through the set in use, consuming a single shift.
-/

namespace ControlStream

/-- A character set that can be designated into one of the slots G0 to G3. -/
inductive Charset
  | ascii
  | decSpecialGraphics
  /-- The set of the United Kingdom, with the pound sign in place of the number sign. -/
  | uk
  deriving DecidableEq, Inhabited, Repr

namespace Charset

def name : Charset → String
  | ascii => "Ascii"
  | decSpecialGraphics => "DecSpecialGraphics"
  | uk => "Uk"

def all : List Charset := [ascii, decSpecialGraphics, uk]

def ofName? (s : String) : Option Charset :=
  all.find? (·.name == s)

/-- The character set a designation such as `ESC ( 0` asks for by its final character. A final
character that is not known designates ASCII. -/
def ofDesignation : Char → Charset
  | '0' | '2' => decSpecialGraphics
  | 'A' => uk
  | _ => ascii

def lineDrawing : Char → Char
  | '\x60' => '◆'
  | 'a' => '▒'
  | 'b' => '␉'
  | 'c' => '␌'
  | 'd' => '␍'
  | 'e' => '␊'
  | 'f' => '°'
  | 'g' => '±'
  | 'h' => '␤'
  | 'i' => '␋'
  | 'j' => '┘'
  | 'k' => '┐'
  | 'l' => '┌'
  | 'm' => '└'
  | 'n' => '┼'
  | 'o' => '⎺'
  | 'p' => '⎻'
  | 'q' => '─'
  | 'r' => '⎼'
  | 's' => '⎽'
  | 't' => '├'
  | 'u' => '┤'
  | 'v' => '┴'
  | 'w' => '┬'
  | 'x' => '│'
  | 'y' => '≤'
  | 'z' => '≥'
  | '\x7b' => 'π'
  | '\x7c' => '≠'
  | '\x7d' => '£'
  | '\x7e' => '·'
  | c => c

def translate (charset : Charset) (c : Char) : Char :=
  match charset with
  | ascii => c
  | decSpecialGraphics => lineDrawing c
  | uk => if c = '#' then '£' else c

theorem isControl_lineDrawing {c : Char} (h : isControl c = false) :
    isControl (lineDrawing c) = false := by
  unfold lineDrawing
  split <;> first | rfl | exact h

/-- A printable character is shown as a printable character. -/
theorem isControl_translate (charset : Charset) {c : Char} (h : isControl c = false) :
    isControl (charset.translate c) = false := by
  cases charset with
  | ascii => exact h
  | decSpecialGraphics => exact isControl_lineDrawing h
  | uk =>
    simp only [translate]
    split
    · rfl
    · exact h

end Charset

structure GraphicSet where
  slots : Vector Charset 4
  /-- The slot that is shifted in: 0 after SI, 1 after SO. -/
  active : UInt8
  /-- The slot the next character alone is sent through, if a single shift is pending. -/
  singleShift : Option UInt8
  deriving DecidableEq, Repr

namespace GraphicSet

def initial : GraphicSet := ⟨Vector.replicate 4 .ascii, 0, none⟩

instance : Inhabited GraphicSet := ⟨initial⟩

/-- Designate a character set into a slot; a slot beyond G3 is left alone. -/
def designate (g : GraphicSet) (slot : UInt8) (charset : Charset) : GraphicSet :=
  { g with slots := g.slots.setIfInBounds slot.toNat charset }

/-- The character set of a slot, ASCII beyond G3. -/
def slot (g : GraphicSet) (i : UInt8) : Charset :=
  g.slots[i.toNat]?.getD .ascii

/-- Shift in: put G0 in use and drop a pending single shift. -/
def shiftIn (g : GraphicSet) : GraphicSet :=
  { g with active := 0, singleShift := none }

/-- Shift out: put G1 in use and drop a pending single shift. -/
def shiftOut (g : GraphicSet) : GraphicSet :=
  { g with active := 1, singleShift := none }

/-- Send the next character alone through G2 or G3; no other slot can be asked for. -/
def single (g : GraphicSet) (slot : UInt8) : GraphicSet :=
  if slot = 2 ∨ slot = 3 then { g with singleShift := some slot } else g

/-- The character set the next character is sent through. -/
def current (g : GraphicSet) : Charset :=
  g.slot (g.singleShift.getD g.active)

/-- The set after a character has been sent through it: a single shift is used up. -/
def afterOne (g : GraphicSet) : GraphicSet :=
  { g with singleShift := none }

def translate (g : GraphicSet) (c : Char) : Char × GraphicSet :=
  (g.current.translate c, g.afterOne)

end GraphicSet

end ControlStream
