import ControlStream.Json.Token

/-!
# JSON numbers

What the digits of a JSON number amount to. A number without point and exponent is an integer as
long as it fits into 64 bits; every other number is a floating point number.

## Main definitions

* `Number`: a natural number, a negative integer or a floating point number.
* `Numeral.evaluate`: the number of some digits, or what is wrong with them.
-/

namespace ControlStream

inductive Number
  | natural (n : Nat)
  /-- A negative integer of 64 bits, by its absolute value. -/
  | negative (n : Nat)
  | float (f : Float)

/-- Digits that were read, as many as fit into 64 bits, and a power of ten. -/
structure Decimal where
  significand : Nat
  /-- The power of ten. -/
  exponent : Int
  /-- A digit did not fit. -/
  full : Bool

namespace Decimal

def maxSignificand : Nat := Nat.pow 2 64 - 1

/-- Read a digit before the point. One that does not fit counts as a zero, and so do all digits
after it. -/
def addWhole (d : Decimal) (digit : Nat) : Decimal :=
  if d.full then { d with exponent := d.exponent + 1 }
  else
    let n := d.significand * 10 + digit
    if n ≤ maxSignificand then { d with significand := n }
    else { d with exponent := d.exponent + 1, full := true }

/-- Read a digit after the point. One that does not fit is left out, and so are all digits after
it. -/
def addFraction (d : Decimal) (digit : Nat) : Decimal :=
  if d.full then d
  else
    let n := d.significand * 10 + digit
    if n ≤ maxSignificand then { d with significand := n, exponent := d.exponent - 1 }
    else { d with full := true }

end Decimal

def floatPowerOfTen (k : Nat) : Float := Float.ofScientific 1 false k

/-- Scale a number by a power of ten that may be below `10 ^ (-308)`: as many factors of `10 ^ 308`
as needed are divided off first. -/
def scaleDown (f : Float) (k : Nat) : Float :=
  if k ≤ 308 then f / floatPowerOfTen k
  else if f == 0 then f
  else scaleDown (f / floatPowerOfTen 308) (k - 308)
termination_by k

def scaleFloat (f : Float) (exponent : Int) : Except Fault Float :=
  if exponent < 0 then .ok (scaleDown f exponent.natAbs)
  else if exponent ≤ 308 then
    let g := f * floatPowerOfTen exponent.natAbs
    if g.isInf then .error .numberOutOfRange else .ok g
  else if f == 0 then .ok f
  else .error .numberOutOfRange

def maxExponent : Nat := Nat.pow 2 31 - 1

def exponentValue? (digits : List Nat) : Option Nat :=
  digits.foldl (fun value digit =>
    value.bind fun n => if n * 10 + digit ≤ maxExponent then some (n * 10 + digit) else none)
    (some 0)

namespace Numeral

def decimal (n : Numeral) : Decimal :=
  let whole := n.whole.foldl Decimal.addWhole ⟨0, 0, false⟩
  (n.fraction.getD []).foldl Decimal.addFraction { whole with full := false }

/-- The size of a number with a point or an exponent, or of an integer that is too large. -/
def magnitude (n : Numeral) : Except Fault Float :=
  let d := n.decimal
  let f := d.significand.toUInt64.toFloat
  match n.exponent with
  | none => scaleFloat f d.exponent
  | some e =>
    match exponentValue? e.digits with
    | some k => scaleFloat f (if e.negative then d.exponent - k else d.exponent + k)
    | none => if d.significand ≠ 0 ∧ !e.negative then .error .numberOutOfRange else .ok 0

def wholeValue (n : Numeral) : Nat := n.whole.foldl (fun value digit => value * 10 + digit) 0

def isInteger (n : Numeral) : Bool := n.fraction.isNone && n.exponent.isNone

def float (n : Numeral) : Except Fault Number := do
  let f ← n.magnitude
  return .float (if n.negative then -f else f)

/-- What is wrong with the digits, if they are read as a number. -/
def fault? (n : Numeral) : Option Fault :=
  match n.ending with
  | .complete => none
  | .leadingZero | .notDigit => some .invalidNumber
  | .eof => some .eofInValue

/-- What is wrong with the digits, if the number is skipped. -/
def skippedFault? (n : Numeral) : Option Fault :=
  match n.ending with
  | .complete => none
  | .leadingZero | .notDigit | .eof => some .invalidNumber

def evaluate (n : Numeral) : Except Fault Number :=
  match n.fault? with
  | some f => .error f
  | none =>
    if n.isInteger then
      let value := n.wholeValue
      if n.negative then
        if 0 < value ∧ value ≤ Nat.pow 2 63 then .ok (.negative value) else n.float
      else if value ≤ Decimal.maxSignificand then .ok (.natural value)
      else n.float
    else n.float

end Numeral

end ControlStream
