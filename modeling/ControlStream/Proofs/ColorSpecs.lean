import ControlStream.Color.Spec
import ControlStream.Proofs.Numerals
import Mathlib.Data.List.Basic

/-!
# The texts that spell colors

A color is spelled by a number sign and three pairs of hexadecimal digits, or by three channels with
one to four digits each, which are scaled to bytes. The first character of a pair or of a channel
may be a plus sign, because they are read as numerals.

## Main definitions

* `IsNearest`: the integer nearest to a fraction.
* `IsPair`, `IsChannel`: the parts of the two forms.
* `Color.SpelledBy`: the texts that spell a color, with or without plus signs.
* `scaleWithin?`: scaling as far as all steps fit into 32 bits.

## Main statements

* `parseChannel?_eq_some_iff`: what is read as a channel.
* `Color.ofSpec?_spelled`: what is read as a color.
-/

namespace ControlStream

/-- The integer `n` is nearer to the fraction `a / b` than any other. -/
def IsNearest (n a b : Nat) : Prop :=
  ∀ m : Int, m ≠ n → ((n : Int) * b - a).natAbs < (m * b - a).natAbs

/-- Two characters that are a numeral of a byte. -/
def IsPair (plus : Bool) (s : List Char) (byte : UInt8) : Prop :=
  s.length = 2 ∧ IsNumeral hexDigit? 16 plus s byte.toNat

/-- One to four characters that are a numeral, and the byte this is scaled to: as its number is to
the largest number of as many digits, so is the byte to 255. -/
def IsChannel (plus : Bool) (s : List Char) (byte : UInt8) : Prop :=
  s.length ≤ 4 ∧ ∃ value, IsNumeral hexDigit? 16 plus s value ∧
    IsNearest byte.toNat (255 * value) (Nat.pow 16 s.length - 1)

/-- The text spells a color. Plus signs may stand in front of its numerals if `plus` holds. -/
inductive Color.SpelledBy (plus : Bool) : List Char → Rgb → Prop
  | pairs {r g b : List Char} {c : Rgb} (hr : IsPair plus r c.red) (hg : IsPair plus g c.green)
      (hb : IsPair plus b c.blue) : SpelledBy plus ('#' :: (r ++ (g ++ b))) c
  | channels {i r g b : List Char} {c : Rgb} (hi : i = "rgb:".toList ∨ i = "RGB:".toList)
      (hr : IsChannel plus r c.red) (hg : IsChannel plus g c.green)
      (hb : IsChannel plus b c.blue) : SpelledBy plus (i ++ (r ++ '/' :: (g ++ '/' :: b))) c

/-! ### Scaling -/

theorem IsNearest.unique {n m a b : Nat} (hn : IsNearest n a b) (hm : IsNearest m a b) : n = m := by
  rcases Nat.lt_trichotomy n m with hlt | heq | hlt
  · exact absurd (hn m (by omega)) (Nat.lt_asymm (hm n (by omega)))
  · exact heq
  · exact absurd (hn m (by omega)) (Nat.lt_asymm (hm n (by omega)))

/-- Adding half of an odd denominator before dividing rounds to the nearest integer: no fraction is
in the middle between two. -/
theorem isNearest_div {a b : Nat} (hodd : b % 2 = 1) : IsNearest ((a + b / 2) / b) a b := by
  intro m hm
  have hle : (a + b / 2) / b * b ≤ a + b / 2 := Nat.div_mul_le_self _ _
  have hlt : a + b / 2 < ((a + b / 2) / b + 1) * b :=
    Nat.lt_mul_of_div_lt (Nat.lt_succ_self _) (by omega)
  generalize (a + b / 2) / b = q at hm hle hlt ⊢
  rw [Nat.succ_mul] at hlt
  have hcast : ((q * b : Nat) : Int) = q * b := Int.natCast_mul q b
  rcases Int.lt_or_gt_of_ne hm with hless | hmore
  · have hstep : (m + 1) * b ≤ q * b := Int.mul_le_mul_of_nonneg_right hless (by omega)
    rw [Int.add_mul, Int.one_mul] at hstep
    omega
  · have hstep : ((q : Int) + 1) * b ≤ m * b := Int.mul_le_mul_of_nonneg_right hmore (by omega)
    rw [Int.add_mul, Int.one_mul] at hstep
    omega

theorem pow_sub_one_mod_two {digits : Nat} (h : 1 ≤ digits) : (Nat.pow 16 digits - 1) % 2 = 1 := by
  obtain ⟨n, rfl⟩ := Nat.exists_eq_add_of_le' h
  have hpow : Nat.pow 16 (n + 1) = Nat.pow 16 n * 16 := rfl
  have hpos : 0 < Nat.pow 16 n := Nat.pow_pos (by decide)
  omega

/-- A value that has the digits is scaled to the nearest byte. -/
theorem toNat_scaleChannel {digits value : Nat} (hdigits : 1 ≤ digits)
    (hvalue : value < Nat.pow 16 digits) :
    (scaleChannel digits value).toNat =
      (255 * value + (Nat.pow 16 digits - 1) / 2) / (Nat.pow 16 digits - 1) := by
  have hodd := pow_sub_one_mod_two hdigits
  rw [scaleChannel, UInt8.toNat_ofNat', Nat.mul_comm value]
  refine Nat.mod_eq_of_lt (Nat.div_lt_of_lt_mul ?_)
  omega

theorem isNearest_scaleChannel {digits value : Nat} (hdigits : 1 ≤ digits)
    (hvalue : value < Nat.pow 16 digits) :
    IsNearest (scaleChannel digits value).toNat (255 * value) (Nat.pow 16 digits - 1) := by
  rw [toNat_scaleChannel hdigits hvalue]
  exact isNearest_div (pow_sub_one_mod_two hdigits)

def within32? (n : Nat) : Option Nat := if n < Nat.pow 2 32 then some n else none

/-- What a value is scaled to, as long as all numbers on the way fit into 32 bits. -/
def scaleWithin? (digits value : Nat) : Option Nat := do
  let value ← within32? value
  let power ← within32? (Nat.pow 16 digits)
  let product ← within32? (value * 255)
  let dividend ← within32? (product + (power - 1) / 2)
  return dividend / (power - 1)

theorem within32?_of_lt {n : Nat} (h : n < 4294967296) : within32? n = some n := if_pos h

/-- All numbers on the way to a channel fit into 32 bits, and the channel into a byte. -/
theorem scaleWithin?_eq {digits value : Nat} (hdigits : 1 ≤ digits ∧ digits ≤ 4)
    (hvalue : value < Nat.pow 16 digits) :
    scaleWithin? digits value = some (scaleChannel digits value).toNat := by
  have hpower : Nat.pow 16 digits ≤ Nat.pow 16 4 := Nat.pow_le_pow_right (by decide) hdigits.2
  have hbound : Nat.pow 16 4 = 65536 := rfl
  rw [toNat_scaleChannel hdigits.1 hvalue, Nat.mul_comm, scaleWithin?,
    within32?_of_lt (by omega), within32?_of_lt (by omega)]
  simp only [Option.bind_eq_bind, Option.bind_some]
  rw [within32?_of_lt (by omega), Option.bind_some, within32?_of_lt (by omega), Option.bind_some]
  rfl

/-! ### Pairs and channels -/

theorem parseByte?_eq_some_iff {high low : Char} {byte : UInt8} :
    parseByte? high low = some byte ↔ IsPair true [high, low] byte := by
  have hbyte := byte.toNat_lt
  rw [parseByte?, Option.map_eq_some_iff, IsPair]
  constructor
  · rintro ⟨value, hread, rfl⟩
    obtain ⟨hnumeral, hle⟩ := parseHex?_eq_some_iff.mp hread
    rw [UInt8.toNat_ofNat_of_lt' (Nat.lt_succ_of_le hle)]
    exact ⟨rfl, hnumeral⟩
  · rintro ⟨-, hnumeral⟩
    exact ⟨_, parseHex?_eq_some_iff.mpr ⟨hnumeral, by omega⟩, UInt8.ofNat_toNat⟩

/-- Exactly the channels are read, as the bytes they are scaled to. -/
theorem parseChannel?_eq_some_iff {s : List Char} {byte : UInt8} :
    parseChannel? s = some byte ↔ IsChannel true s byte := by
  constructor
  · intro hread
    obtain ⟨hlength, hscaled⟩ := Option.ite_none_right_eq_some.mp hread
    obtain ⟨value, hvalue, rfl⟩ := Option.map_eq_some_iff.mp hscaled
    obtain ⟨hnumeral, -⟩ := parseHex?_eq_some_iff.mp hvalue
    exact ⟨hlength.2, value, hnumeral, isNearest_scaleChannel hlength.1 hnumeral.lt_pow⟩
  · rintro ⟨hlength, value, hnumeral, hnearest⟩
    have hpower : Nat.pow 16 s.length ≤ Nat.pow 16 4 := Nat.pow_le_pow_right (by decide) hlength
    have hbound : Nat.pow 16 4 = 65536 := rfl
    have hlt := hnumeral.lt_pow
    have hread : parseHex? 0xFFFF s = some value :=
      parseHex?_eq_some_iff.mpr ⟨hnumeral, by omega⟩
    have hscale := (isNearest_scaleChannel hnumeral.length_pos hlt).unique hnearest
    rw [parseChannel?, if_pos ⟨hnumeral.length_pos, hlength⟩, hread, Option.map_some,
      UInt8.toNat_inj.mp hscale]

/-! ### Plus signs -/

theorem IsPair.of_not_mem {plus : Bool} {s : List Char} {byte : UInt8} (h : IsPair plus s byte)
    (hs : '+' ∉ s) (other : Bool) : IsPair other s byte :=
  ⟨h.1, h.2.of_not_mem hs other⟩

theorem IsChannel.of_not_mem {plus : Bool} {s : List Char} {byte : UInt8}
    (h : IsChannel plus s byte) (hs : '+' ∉ s) (other : Bool) : IsChannel other s byte := by
  obtain ⟨hlength, value, hnumeral, hnearest⟩ := h
  exact ⟨hlength, value, hnumeral.of_not_mem hs other, hnearest⟩

/-- A text without plus signs spells a color with digits alone. -/
theorem Color.SpelledBy.of_not_mem {plus : Bool} {s : List Char} {c : Rgb}
    (h : SpelledBy plus s c) (hs : '+' ∉ s) (other : Bool) : SpelledBy other s c := by
  cases h with
  | pairs hr hg hb =>
    simp only [List.mem_cons, List.mem_append, not_or] at hs
    obtain ⟨-, hnr, hng, hnb⟩ := hs
    exact .pairs (hr.of_not_mem hnr other) (hg.of_not_mem hng other) (hb.of_not_mem hnb other)
  | channels hi hr hg hb =>
    simp only [List.mem_cons, List.mem_append, not_or] at hs
    obtain ⟨-, hnr, -, hng, -, hnb⟩ := hs
    exact .channels hi (hr.of_not_mem hnr other) (hg.of_not_mem hng other)
      (hb.of_not_mem hnb other)

/-- There are no plus signs where digits alone spell a color. -/
theorem Color.SpelledBy.plus_not_mem {s : List Char} {c : Rgb} (h : SpelledBy false s c) :
    '+' ∉ s := by
  have hpair {t : List Char} {byte : UInt8} (ht : IsPair false t byte) : '+' ∉ t :=
    ht.2.plus_not_mem (by decide)
  have hchannel {t : List Char} {byte : UInt8} (ht : IsChannel false t byte) : '+' ∉ t := by
    obtain ⟨-, value, hnumeral, -⟩ := ht
    exact hnumeral.plus_not_mem (by decide)
  cases h with
  | pairs hr hg hb => simp [hpair hr, hpair hg, hpair hb]
  | channels hi hr hg hb =>
    have hname : ∀ i, i = "rgb:".toList ∨ i = "RGB:".toList → '+' ∉ i := by
      rintro i (rfl | rfl) <;> decide
    simp [hname _ hi, hchannel hr, hchannel hg, hchannel hb]

/-! ### Colors -/

theorem IsChannel.not_mem_slash {plus : Bool} {s : List Char} {byte : UInt8}
    (h : IsChannel plus s byte) : '/' ∉ s := by
  obtain ⟨-, value, hnumeral, -⟩ := h
  exact hnumeral.not_mem (by decide) (by decide)

theorem exists_of_fieldsOf_eq {separator : Char} {s a b c : List Char}
    (h : fieldsOf separator s = [a, b, c]) : s = a ++ separator :: (b ++ separator :: c) := by
  rcases fieldsOf_cases separator s with ⟨-, hone⟩ | ⟨first, s, rfl, -, hfirst⟩
  · simp [hone] at h
  · rw [hfirst, List.cons.injEq] at h
    obtain ⟨rfl, h⟩ := h
    rcases fieldsOf_cases separator s with ⟨-, hone⟩ | ⟨second, s, rfl, -, hsecond⟩
    · simp [hone] at h
    · rw [hsecond, List.cons.injEq] at h
      obtain ⟨rfl, h⟩ := h
      rcases fieldsOf_cases separator s with ⟨-, hone⟩ | ⟨third, s, rfl, -, hthird⟩
      · rw [hone, List.cons.injEq] at h
        rw [h.1]
      · simp [hthird, fieldsOf_ne_nil] at h

namespace Color

/-- Three channels are put together if all are there. -/
theorem ofRgb_bind_eq_some_iff {red green blue : Option UInt8} {c : Color} :
    (do return ofRgb ⟨← red, ← green, ← blue⟩) = some c ↔
      ∃ rgb : Rgb, red = some rgb.red ∧ green = some rgb.green ∧ blue = some rgb.blue ∧
        c = ofRgb rgb := by
  constructor
  · intro h
    simp only [bind, Option.bind_eq_some_iff, pure, Option.some.injEq] at h
    obtain ⟨r, hr, g, hg, b, hb, rfl⟩ := h
    exact ⟨⟨r, g, b⟩, hr, hg, hb, rfl⟩
  · rintro ⟨rgb, rfl, rfl, rfl, rfl⟩
    rfl

theorem ofHexPairs?_eq_some_iff {s : List Char} {c : Color} :
    ofHexPairs? s = some c ↔ ∃ (r g b : List Char) (rgb : Rgb), s = r ++ (g ++ b) ∧
      IsPair true r rgb.red ∧ IsPair true g rgb.green ∧ IsPair true b rgb.blue ∧
      c = ofRgb rgb := by
  constructor
  · intro hread
    unfold ofHexPairs? at hread
    split at hread
    · rename_i r₁ r₀ g₁ g₀ b₁ b₀
      obtain ⟨rgb, hred, hgreen, hblue, hc⟩ := ofRgb_bind_eq_some_iff.mp hread
      exact ⟨[r₁, r₀], [g₁, g₀], [b₁, b₀], rgb, rfl, parseByte?_eq_some_iff.mp hred,
        parseByte?_eq_some_iff.mp hgreen, parseByte?_eq_some_iff.mp hblue, hc⟩
    · cases hread
  · rintro ⟨r, g, b, rgb, rfl, hr, hg, hb, hc⟩
    obtain ⟨r₁, r₀, rfl⟩ := List.length_eq_two.mp hr.1
    obtain ⟨g₁, g₀, rfl⟩ := List.length_eq_two.mp hg.1
    obtain ⟨b₁, b₀, rfl⟩ := List.length_eq_two.mp hb.1
    exact ofRgb_bind_eq_some_iff.mpr ⟨rgb, parseByte?_eq_some_iff.mpr hr,
      parseByte?_eq_some_iff.mpr hg, parseByte?_eq_some_iff.mpr hb, hc⟩

theorem ofChannels?_eq_some_iff {s : List Char} {c : Color} :
    ofChannels? s = some c ↔ ∃ (r g b : List Char) (rgb : Rgb), s = r ++ '/' :: (g ++ '/' :: b) ∧
      IsChannel true r rgb.red ∧ IsChannel true g rgb.green ∧ IsChannel true b rgb.blue ∧
      c = ofRgb rgb := by
  constructor
  · intro hread
    unfold ofChannels? at hread
    split at hread
    · rename_i r g b hfields
      obtain ⟨rgb, hred, hgreen, hblue, hc⟩ := ofRgb_bind_eq_some_iff.mp hread
      exact ⟨r, g, b, rgb, exists_of_fieldsOf_eq hfields, parseChannel?_eq_some_iff.mp hred,
        parseChannel?_eq_some_iff.mp hgreen, parseChannel?_eq_some_iff.mp hblue, hc⟩
    · cases hread
  · rintro ⟨r, g, b, rgb, rfl, hr, hg, hb, hc⟩
    rw [ofChannels?, fieldsOf_append_separator hr.not_mem_slash,
      fieldsOf_append_separator hg.not_mem_slash, fieldsOf_of_not_mem hb.not_mem_slash]
    exact ofRgb_bind_eq_some_iff.mpr ⟨rgb, parseChannel?_eq_some_iff.mpr hr,
      parseChannel?_eq_some_iff.mpr hg, parseChannel?_eq_some_iff.mpr hb, hc⟩

/-- A color is read from exactly the texts that spell it, with or without plus signs. -/
theorem ofSpec?_eq_some_iff {s : List Char} {c : Color} :
    ofSpec? s = some c ↔ ∃ rgb, SpelledBy true (trimBlanks s) rgb ∧ c = ofRgb rgb := by
  constructor
  · intro hread
    unfold ofSpec? at hread
    split at hread
    · rename_i digits htrim
      obtain ⟨r, g, b, rgb, rfl, hr, hg, hb, hc⟩ := ofHexPairs?_eq_some_iff.mp hread
      exact ⟨rgb, htrim ▸ .pairs hr hg hb, hc⟩
    · rename_i channels htrim
      obtain ⟨r, g, b, rgb, rfl, hr, hg, hb, hc⟩ := ofChannels?_eq_some_iff.mp hread
      exact ⟨rgb, htrim ▸ .channels (.inl rfl) hr hg hb, hc⟩
    · rename_i channels htrim
      obtain ⟨r, g, b, rgb, rfl, hr, hg, hb, hc⟩ := ofChannels?_eq_some_iff.mp hread
      exact ⟨rgb, htrim ▸ .channels (.inr rfl) hr hg hb, hc⟩
    · cases hread
  · rintro ⟨rgb, hspelled, hc⟩
    unfold ofSpec?
    generalize trimBlanks s = text at hspelled
    cases hspelled with
    | pairs hr hg hb => exact ofHexPairs?_eq_some_iff.mpr ⟨_, _, _, rgb, rfl, hr, hg, hb, hc⟩
    | channels hi hr hg hb =>
      have hread := ofChannels?_eq_some_iff.mpr ⟨_, _, _, rgb, rfl, hr, hg, hb, hc⟩
      rcases hi with rfl | rfl
      · exact hread
      · exact hread

theorem trimBlanks_subset (s : List Char) : trimBlanks s ⊆ s := by
  intro c hc
  have hback := List.mem_reverse.mp ((List.dropWhile_sublist _).subset (List.mem_reverse.mp hc))
  exact (List.dropWhile_sublist _).subset hback

/-- The texts that are read as colors, once they are trimmed of blanks. Without plus signs these are
a number sign and three pairs of hexadecimal digits, or `rgb:` and three channels of one to four
digits, and the color is the one that is spelled. A plus sign in the place of the first digit of a
pair or channel is read as well, as long as another digit follows. All numbers on the way to a
channel fit into 32 bits. -/
theorem ofSpec?_spelled (s : List Char) :
    ('+' ∉ s → ∀ c, ofSpec? s = some c ↔ ∃ rgb, SpelledBy false (trimBlanks s) rgb ∧
      c.packed.toNat = rgb.red.toNat * 65536 + rgb.green.toNat * 256 + rgb.blue.toNat) ∧
    (∀ c, ofSpec? s = some c ↔ ∃ rgb, SpelledBy true (trimBlanks s) rgb ∧
      c.packed.toNat = rgb.red.toNat * 65536 + rgb.green.toNat * 256 + rgb.blue.toNat) ∧
    ∀ (channel : List Char) (value : Nat), channel.length ≤ 4 →
      IsNumeral hexDigit? 16 true channel value →
        scaleWithin? channel.length value = some (scaleChannel channel.length value).toNat := by
  have hpacked (c : Color) (rgb : Rgb) : c = ofRgb rgb ↔
      c.packed.toNat = rgb.red.toNat * 65536 + rgb.green.toNat * 256 + rgb.blue.toNat := by
    rw [← packed_ofRgb, UInt32.toNat_inj]
    exact ⟨congrArg packed, fun h => congrArg mk h⟩
  have hread (c : Color) := ofSpec?_eq_some_iff (s := s) (c := c)
  simp only [hpacked] at hread
  refine ⟨?_, hread, ?_⟩
  · intro hs c
    have htrim : '+' ∉ trimBlanks s := fun hmem => hs (trimBlanks_subset s hmem)
    refine (hread c).trans (exists_congr fun rgb => and_congr_left' ?_)
    exact ⟨fun h => h.of_not_mem htrim false, fun h => h.of_not_mem htrim true⟩
  · intro channel value hlength hnumeral
    exact scaleWithin?_eq ⟨hnumeral.length_pos, hlength⟩ hnumeral.lt_pow

/-- Channels of different widths, and blanks around them. -/
theorem ofSpec?_spelled_mixed :
    let s := " rgb:f/00/8000\n".toList
    '+' ∉ s ∧ ofSpec? s = some ⟨0xFF0080⟩ ∧ ∃ rgb, SpelledBy false (trimBlanks s) rgb ∧
      (0xFF0080 : UInt32).toNat =
        rgb.red.toNat * 65536 + rgb.green.toNat * 256 + rgb.blue.toNat := by
  intro s
  have hs : '+' ∉ s := by decide
  have hread : ofSpec? s = some ⟨0xFF0080⟩ := by decide
  exact ⟨hs, hread, ((ofSpec?_spelled s).1 hs _).mp hread⟩

/-- A plus sign in the place of a digit is no digit, and the text is read all the same. -/
theorem ofSpec?_not_spelled_plus :
    let s := "#+1+2+3".toList
    ofSpec? s = some ⟨0x010203⟩ ∧ ¬ ∃ rgb, SpelledBy false (trimBlanks s) rgb := by
  refine ⟨by decide, ?_⟩
  rintro ⟨rgb, hspelled⟩
  exact absurd hspelled.plus_not_mem (by decide)

end Color

end ControlStream
