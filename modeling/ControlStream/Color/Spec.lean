import ControlStream.Color.Packed
import ControlStream.Text.Blank
import ControlStream.Text.Fields
import ControlStream.Text.Numeral

/-!
# Color specifications

The two ways a color is spelled in a control stream: `#rrggbb`, and `rgb:r/g/b` with one to four
digits a channel, which are scaled to eight bits.

## Main definitions

* `parseChannel?`: one channel of the second form.
* `Color.ofSpec?`: the color a text spells.
-/

namespace ControlStream

/-- The byte nearest to `255 * value / (16 ^ digits - 1)`. -/
def scaleChannel (digits value : Nat) : UInt8 :=
  let max := Nat.pow 16 digits - 1
  UInt8.ofNat ((value * 255 + max / 2) / max)

/-- A channel of one to four characters, scaled to eight bits. The scale is that of the number of
characters. -/
def parseChannel? (s : List Char) : Option UInt8 :=
  if 1 ≤ s.length ∧ s.length ≤ 4 then
    (parseHex? 0xFFFF s).map (scaleChannel s.length)
  else none

def parseByte? (high low : Char) : Option UInt8 :=
  (parseHex? 0xFF [high, low]).map UInt8.ofNat

namespace Color

/-- The color of the six characters after a number sign. -/
def ofHexPairs? : List Char → Option Color
  | [r₁, r₀, g₁, g₀, b₁, b₀] => do
    let red ← parseByte? r₁ r₀
    let green ← parseByte? g₁ g₀
    let blue ← parseByte? b₁ b₀
    return .ofRgb ⟨red, green, blue⟩
  | _ => none

/-- The color of the channels after `rgb:`. -/
def ofChannels? (s : List Char) : Option Color :=
  match fieldsOf '/' s with
  | [r, g, b] => do
    let red ← parseChannel? r
    let green ← parseChannel? g
    let blue ← parseChannel? b
    return .ofRgb ⟨red, green, blue⟩
  | _ => none

/-- The color a text spells, blanks around it left out. -/
def ofSpec? (s : List Char) : Option Color :=
  match trimBlanks s with
  | '#' :: digits => ofHexPairs? digits
  | 'r' :: 'g' :: 'b' :: ':' :: channels => ofChannels? channels
  | 'R' :: 'G' :: 'B' :: ':' :: channels => ofChannels? channels
  | _ => none

end Color

end ControlStream
