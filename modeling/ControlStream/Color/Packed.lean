import ControlStream.Text.Quoted

/-!
# Colors

A color is a number with eight bits each for red, green and blue.

## Main definitions

* `Rgb`: the three channels of a color.
* `Color`: a packed color, with `Color.ofRgb` and `Color.toRgb`.
* `Color.masked`: a number cut down to its 24 color bits.
* `Color.hex`, `hexByte`: colors and channels in hexadecimal.
-/

namespace ControlStream

structure Rgb where
  red : UInt8
  green : UInt8
  blue : UInt8
  deriving DecidableEq, Inhabited, Repr

/-- A color packed into a number: red from bit 16 on, green from bit 8 on, blue from bit 0 on. -/
structure Color where
  /-- The number. Colors that were not masked may have higher bits set. -/
  packed : UInt32
  deriving DecidableEq, Inhabited, Repr

def hexByte (b : UInt8) : String :=
  String.ofList [Nat.digitChar (b.toNat / 16), Nat.digitChar (b.toNat % 16)]

namespace Color

def ofRgb (c : Rgb) : Color :=
  ⟨UInt32.ofNat (c.red.toNat * 65536 + c.green.toNat * 256 + c.blue.toNat)⟩

/-- The three channels of a color; higher bits are dropped. -/
def toRgb (c : Color) : Rgb :=
  ⟨UInt8.ofNat (c.packed.toNat / 65536), UInt8.ofNat (c.packed.toNat / 256),
    UInt8.ofNat c.packed.toNat⟩

/-- A number cut down to the 24 bits of a color. -/
def masked (c : Color) : Color := ⟨UInt32.ofNat (c.packed.toNat % 16777216)⟩

/-- A color in hexadecimal, padded to six digits. -/
def hex (c : Color) : String :=
  let digits := Nat.toDigits 16 c.packed.toNat
  String.ofList (List.replicate (6 - digits.length) '0' ++ digits)

theorem packed_ofRgb (c : Rgb) :
    (ofRgb c).packed.toNat = c.red.toNat * 65536 + c.green.toNat * 256 + c.blue.toNat := by
  have hred := c.red.toNat_lt
  have hgreen := c.green.toNat_lt
  have hblue := c.blue.toNat_lt
  rw [ofRgb, UInt32.toNat_ofNat_of_lt' (by simp [UInt32.size]; omega)]

theorem toRgb_ofRgb (c : Rgb) : (ofRgb c).toRgb = c := by
  obtain ⟨r, g, b⟩ := c
  have hr := r.toNat_lt
  have hg := g.toNat_lt
  have hb := b.toNat_lt
  simp only [ofRgb, toRgb, Rgb.mk.injEq]
  rw [UInt32.toNat_ofNat_of_lt' (by simp [UInt32.size]; omega)]
  refine ⟨UInt8.toNat_inj.mp ?_, UInt8.toNat_inj.mp ?_, UInt8.toNat_inj.mp ?_⟩ <;>
    simp only [UInt8.toNat_ofNat'] <;> omega

theorem masked_masked (c : Color) : c.masked.masked = c.masked := by
  simp only [masked, mk.injEq]
  refine UInt32.toNat_inj.mp ?_
  simp only [UInt32.toNat_ofNat']
  omega

theorem packed_masked_lt (c : Color) : c.masked.packed.toNat < 16777216 := by
  simp only [masked, UInt32.toNat_ofNat']
  omega

end Color

end ControlStream
