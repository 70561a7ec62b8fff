/-!
# Floating point numbers in decimal

The shortest decimal numeral that is read back as a given floating point number. The arithmetic is
exact: a finite number is a fraction of natural numbers, and the numerals that are read back as it
are those in an interval around it.

## Main definitions

* `Interval`: a number and the bounds of what is read back as it, over a common denominator.
* `shortestDigits`: the digits of the shortest numeral and the power of ten of the first.
* `decimalText`: a floating point number in decimal.
-/

namespace ControlStream

/-- A positive number with the bounds of the interval around it, over a common denominator. -/
structure Interval where
  /-- The numerator of the lower bound. -/
  low : Nat
  /-- The numerator of the number. -/
  mid : Nat
  /-- The numerator of the upper bound. -/
  high : Nat
  /-- The denominator. -/
  den : Nat
  /-- The bounds belong to the interval. -/
  closed : Bool

/-- The interval around `m * 2 ^ (e - 1076)`. The bounds are halfway to the next numbers; below a
power of two these are closer. -/
def Interval.ofParts (m e : Nat) (closer : Bool) : Interval :=
  let scale := Nat.pow 2 e
  let below := if closer then 1 else 2
  ⟨(4 * m - below) * scale, 4 * m * scale, (4 * m + 2) * scale, Nat.pow 2 1076, m % 2 = 0⟩

def Interval.ofBits (bits : Nat) : Interval :=
  let exponent := bits / Nat.pow 2 52 % Nat.pow 2 11
  let fraction := bits % Nat.pow 2 52
  if exponent = 0 then ofParts fraction 0 false
  else ofParts (Nat.pow 2 52 + fraction) (exponent - 1) (fraction = 0 && exponent > 1)

namespace Interval

def contains (i : Interval) (n d : Nat) : Bool :=
  let n := n * i.den
  if i.closed then decide (i.low * d ≤ n) && decide (n ≤ i.high * d)
  else decide (i.low * d < n) && decide (n < i.high * d)

/-- The greatest power of ten, counted from `10 ^ (-400)`, that is not above the number. -/
def magnitude (i : Interval) : Nat :=
  (Nat.toDigits 10 (i.mid * Nat.pow 10 400 / i.den)).length - 1

end Interval

/-- Ten to the power of `k - 400`, as numerator and denominator. -/
def powerOfTen (k : Nat) : Nat × Nat :=
  if k ≥ 400 then (Nat.pow 10 (k - 400), 1) else (1, Nat.pow 10 (400 - k))

/-- The multiple of `10 ^ (k - 400)` in the interval that is closest to its number. Of two that are
equally close it is the even multiple. -/
def closestMultiple? (i : Interval) (k : Nat) : Option Nat :=
  let (n, d) := powerOfTen k
  let down := i.mid * d / (i.den * n)
  let up := down + 1
  match i.contains (down * n) d, i.contains (up * n) d with
  | true, false => some down
  | false, true => some up
  | false, false => none
  | true, true =>
    match compare (2 * i.mid * d) ((down + up) * i.den * n) with
    | .lt => some down
    | .gt => some up
    | .eq => some (if down % 2 = 0 then down else up)

def significantDigits (n : Nat) : List Char :=
  ((Nat.toDigits 10 n).reverse.dropWhile (· = '0')).reverse

/-- The digits of the shortest numeral in the interval, and the power of ten of the first one. Up
to 17 digits are tried, which always suffice. -/
def shortestDigits (i : Interval) : List Char × Int :=
  let magnitude := i.magnitude
  let found := (List.range 17).findSome? fun count =>
    (closestMultiple? i (magnitude - count)).map fun n => (n, magnitude - count)
  let (n, k) := found.getD (0, magnitude)
  let digits := Nat.toDigits 10 n
  (significantDigits n, (k : Int) - 400 + (digits.length : Int) - 1)

/-- Lay out digits with the power of ten of the first one: with an exponent if that is far from
zero. There is always a point or an exponent. -/
def layOutDigits (digits : List Char) (exponent : Int) : String :=
  if exponent < -5 ∨ exponent > 15 then
    let sign := if exponent < 0 then "-" else "+"
    let fraction :=
      match digits with
      | first :: second :: rest => String.ofList (first :: '.' :: second :: rest)
      | digits => String.ofList digits
    fraction ++ "e" ++ sign ++ toString exponent.natAbs
  else if exponent < 0 then
    "0." ++ String.ofList (List.replicate (exponent.natAbs - 1) '0' ++ digits)
  else
    let whole := exponent.natAbs + 1
    let zeros := List.replicate (whole - digits.length) '0'
    let fraction :=
      match digits.drop whole with
      | [] => ['0']
      | fraction => fraction
    String.ofList (digits.take whole ++ zeros ++ '.' :: fraction)

def decimalText (f : Float) : String :=
  let bits := f.toBits.toNat
  let sign := if bits ≥ Nat.pow 2 63 then "-" else ""
  let bits := bits % Nat.pow 2 63
  if bits = 0 then sign ++ "0.0"
  else
    let (digits, exponent) := shortestDigits (.ofBits bits)
    sign ++ layOutDigits digits exponent

end ControlStream
