import ControlStream.Text.ControlChar

/-!
# Numerals

Reading numbers from a text. A numeral is a row of one or more digits, with an optional plus sign
in front.

## Main definitions

* `digitValue?`, `hexValue?`: the value of a digit.
* `parseNat?`: a decimal numeral of at most a given value.
* `parseHex?`: a hexadecimal numeral of at most a given value.
-/

namespace ControlStream

def digitValue? (c : Char) : Option Nat :=
  if isDecimal c then some (c.toNat - 0x30) else none

def hexValue? (c : Char) : Option Nat :=
  if inRange 0x30 0x39 c then some (c.toNat - 0x30)
  else if inRange 0x61 0x66 c then some (c.toNat - 0x61 + 10)
  else if inRange 0x41 0x46 c then some (c.toNat - 0x41 + 10)
  else none

def dropPlus : List Char → List Char
  | '+' :: s => s
  | s => s

/-- Read the digits `s` in base `base` after digits of value `value`. There is no result if the
value passes `bound`: it never comes back below it. -/
def parseDigits? (digit? : Char → Option Nat) (base bound : Nat) (value : Nat) :
    List Char → Option Nat
  | [] => some value
  | c :: s =>
    match digit? c with
    | none => none
    | some d =>
      if value * base + d ≤ bound then parseDigits? digit? base bound (value * base + d) s
      else none

/-- Read a decimal numeral whose value is at most `bound`. -/
def parseNat? (bound : Nat) (s : List Char) : Option Nat :=
  match dropPlus s with
  | [] => none
  | digits => parseDigits? digitValue? 10 bound 0 digits

/-- Read a hexadecimal numeral whose value is at most `bound`. -/
def parseHex? (bound : Nat) (s : List Char) : Option Nat :=
  match dropPlus s with
  | [] => none
  | digits => parseDigits? hexValue? 16 bound 0 digits

theorem dropPlus_of_ne {c : Char} (h : c ≠ '+') (s : List Char) : dropPlus (c :: s) = c :: s := by
  unfold dropPlus
  split
  · rename_i heq
    exact absurd (List.cons.inj heq).1 h
  · rfl

/-! ### Digits -/

section Digits

variable {digit? : Char → Option Nat} {base bound value d : Nat} {c : Char}

theorem parseDigits?_cons (hdigit : digit? c = some d) (hbound : value * base + d ≤ bound)
    (s : List Char) :
    parseDigits? digit? base bound value (c :: s) =
      parseDigits? digit? base bound (value * base + d) s := by
  simp only [parseDigits?, hdigit, if_pos hbound]

end Digits

theorem hexValue?_digitChar : ∀ d < 16, hexValue? (Nat.digitChar d) = some d := by decide

theorem digitChar_ne_plus : ∀ d < 16, Nat.digitChar d ≠ '+' := by decide

theorem isDecimal_of_mem_toDigits {c : Char} {n : Nat} (h : c ∈ Nat.toDigits 10 n) :
    isDecimal c = true := by
  have hdigit := Nat.isDigit_of_mem_toDigits (by decide) (by decide) h
  simp only [Char.isDigit, Bool.and_eq_true, decide_eq_true_eq, ge_iff_le,
    UInt32.le_iff_toNat_le] at hdigit
  rw [isDecimal, inRange_iff]
  exact hdigit

end ControlStream
