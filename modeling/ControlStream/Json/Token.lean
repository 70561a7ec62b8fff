import ControlStream.Text.ControlChar
import ControlStream.Text.Numeral
import ControlStream.Text.Utf8

/-!
# JSON tokens

The first step of reading JSON: brackets, separators and scalar values. What is not well formed is
kept as part of the token it spoils, and nothing is read after it. Whether it matters depends on
what the token is read as: a numeral too large for any number may still be skipped.

## Main definitions

* `Fault`: what is wrong with a JSON text.
* `Quoted`: the inside of a string, with its `\u` escapes not yet put together.
* `Numeral`: the digits of a number.
* `Token`, `tokensOf`: the tokens of a text.
-/

namespace ControlStream

inductive Fault
  | eofInList
  | eofInObject
  | eofInString
  /-- The text ends where a value is expected, or inside a word or a number. -/
  | eofInValue
  | expectedColon
  | expectedListEnd
  | expectedObjectEnd
  /-- A word other than `null`, `true` and `false`. -/
  | expectedIdent
  | expectedValue
  | invalidEscape
  /-- An escape in a string by a code point that has not four hexadecimal digits. -/
  | invalidHexEscape
  | invalidNumber
  | numberOutOfRange
  | controlInString
  | keyMustBeString
  /-- A low surrogate alone, or a high surrogate followed by another escape. -/
  | loneSurrogate
  /-- A high surrogate without an escape after it. -/
  | unfinishedSurrogate
  | trailingComma
  | trailingCharacters
  deriving DecidableEq, Repr

namespace Fault

/-- The text ended too early. -/
def isEof : Fault → Bool
  | eofInList | eofInObject | eofInString | eofInValue => true
  | _ => false

def message : Fault → String
  | eofInList => "EOF while parsing a list"
  | eofInObject => "EOF while parsing an object"
  | eofInString => "EOF while parsing a string"
  | eofInValue => "EOF while parsing a value"
  | expectedColon => "expected \x60:\x60"
  | expectedListEnd => "expected \x60,\x60 or \x60]\x60"
  | expectedObjectEnd => "expected \x60,\x60 or \x60\x7d\x60"
  | expectedIdent => "expected ident"
  | expectedValue => "expected value"
  | invalidEscape | invalidHexEscape => "invalid escape"
  | invalidNumber => "invalid number"
  | numberOutOfRange => "number out of range"
  | controlInString => "control character (\\u0000-\\u001F) found while parsing a string"
  | keyMustBeString => "key must be a string"
  | loneSurrogate => "lone leading surrogate in hex escape"
  | unfinishedSurrogate => "unexpected end of hex escape"
  | trailingComma => "trailing comma"
  | trailingCharacters => "trailing characters"

end Fault

inductive QuotedUnit
  /-- A character, written as it is or by a short escape. -/
  | char (c : Char)
  /-- Sixteen bits, written as a `\u` escape. -/
  | code (n : Nat)
  deriving DecidableEq, Repr

structure Quoted where
  /-- The pieces, up to the closing quote or the fault. -/
  units : List QuotedUnit
  /-- What is wrong after the pieces, if anything is. -/
  fault : Option Fault
  deriving DecidableEq, Repr

inductive Numeral.Ending
  | complete
  | leadingZero
  /-- Something else stands where a digit is needed. -/
  | notDigit
  | eof
  deriving DecidableEq, Repr

structure Numeral.Exponent where
  negative : Bool
  digits : List Nat
  deriving DecidableEq, Repr

structure Numeral where
  negative : Bool
  whole : List Nat
  fraction : Option (List Nat)
  exponent : Option Numeral.Exponent
  ending : Numeral.Ending
  deriving DecidableEq, Repr

/-- A value that is not an array or an object. -/
inductive Scalar
  | null
  | bool (b : Bool)
  | number (n : Numeral)
  | string (q : Quoted)
  /-- The beginning of a word that is not spelled to its end. -/
  | misspelt (f : Fault)
  deriving DecidableEq, Repr

inductive Token
  | openList
  | closeList
  | openObject
  | closeObject
  | colon
  | comma
  | scalar (s : Scalar)
  /-- A character no token starts with. -/
  | junk
  deriving DecidableEq, Repr

def isJsonSpace (c : Char) : Bool := [' ', '\n', '\t', '\r'].contains c

/-! ### Strings -/

def shortEscape? : Char → Option Char
  | '"' => some '"'
  | '\\' => some '\\'
  | '/' => some '/'
  | 'b' => some '\x08'
  | 'f' => some '\x0c'
  | 'n' => some '\n'
  | 'r' => some '\r'
  | 't' => some '\t'
  | _ => none

def fourHex? (a b c d : Char) : Option Nat := do
  let a ← hexValue? a
  let b ← hexValue? b
  let c ← hexValue? c
  let d ← hexValue? d
  return ((a * 16 + b) * 16 + c) * 16 + d

/-- What is wrong with the digits of a `\u` escape at the start of `s`, if they are not four
hexadecimal digits: the text ends if it has less than four bytes left. -/
def hexFault (s : List Char) : Fault :=
  if utf8Length (s.take 4) < 4 then .eofInString else .invalidHexEscape

/-- Read a string after its opening quote, behind the pieces read so far, latest first. The text
after the closing quote is returned. -/
def readQuoted (units : List QuotedUnit) : List Char → Quoted × List Char
  | [] => (⟨units.reverse, some .eofInString⟩, [])
  | '"' :: s => (⟨units.reverse, none⟩, s)
  | '\\' :: 'u' :: a :: b :: c :: d :: s =>
    match fourHex? a b c d with
    | some n => readQuoted (.code n :: units) s
    | none => (⟨units.reverse, some (hexFault [a, b, c, d])⟩, [])
  | '\\' :: 'u' :: s => (⟨units.reverse, some (hexFault s)⟩, [])
  | '\\' :: c :: s =>
    match shortEscape? c with
    | some c => readQuoted (.char c :: units) s
    | none => (⟨units.reverse, some .invalidEscape⟩, [])
  | '\\' :: [] => (⟨units.reverse, some .eofInString⟩, [])
  | c :: s =>
    if c.toNat < 0x20 then (⟨units.reverse, some .controlInString⟩, [])
    else readQuoted (.char c :: units) s

theorem length_readQuoted_le (units : List QuotedUnit) (s : List Char) :
    (readQuoted units s).2.length ≤ s.length := by
  fun_induction readQuoted units s <;> simp only [List.length_cons, List.length_nil] <;> omega

namespace Quoted

def pair (high low : Nat) : Char :=
  Char.ofNat (0x10000 + (high - 0xD800) * 0x400 + (low - 0xDC00))

/-- What is wrong after a high surrogate at the end of the pieces. -/
def afterHigh : Option Fault → Fault
  | some .eofInString => .eofInString
  | some .invalidHexEscape => .invalidHexEscape
  | _ => .unfinishedSurrogate

/-- Put pieces together behind a text. -/
def decodeOnto (fault : Option Fault) (text : String) : List QuotedUnit → Except Fault String
  | [] =>
    match fault with
    | none => .ok text
    | some f => .error f
  | .char c :: units => decodeOnto fault (text.push c) units
  | .code n :: units =>
    if 0xDC00 ≤ n ∧ n ≤ 0xDFFF then .error .loneSurrogate
    else if 0xD800 ≤ n ∧ n ≤ 0xDBFF then
      match units with
      | .code m :: units =>
        if 0xDC00 ≤ m ∧ m ≤ 0xDFFF then decodeOnto fault (text.push (pair n m)) units
        else .error .loneSurrogate
      | .char _ :: _ => .error .unfinishedSurrogate
      | [] => .error (afterHigh fault)
    else decodeOnto fault (text.push (Char.ofNat n)) units

def decode (q : Quoted) : Except Fault String := decodeOnto q.fault "" q.units

end Quoted

/-! ### Numbers -/

def readDigits (s : List Char) : List Nat × List Char :=
  ((s.takeWhile isDecimal).map (·.toNat - 0x30), s.dropWhile isDecimal)

def missingDigit : List Char → Numeral.Ending
  | [] => .eof
  | _ => .notDigit

def readExponent (n : Numeral) (s : List Char) : Numeral × List Char :=
  let (negative, s) :=
    match s with
    | '-' :: s => (true, s)
    | '+' :: s => (false, s)
    | s => (false, s)
  match readDigits s with
  | ([], rest) => ({ n with ending := missingDigit rest }, rest)
  | (digits, rest) => ({ n with exponent := some ⟨negative, digits⟩ }, rest)

def readExponent? (n : Numeral) (s : List Char) : Numeral × List Char :=
  match s with
  | 'e' :: s | 'E' :: s => readExponent n s
  | s => (n, s)

def readFraction (n : Numeral) (s : List Char) : Numeral × List Char :=
  match s with
  | '.' :: s =>
    match readDigits s with
    | ([], rest) => ({ n with ending := missingDigit rest }, rest)
    | (digits, rest) => readExponent? { n with fraction := some digits } rest
  | s => readExponent? n s

def readNumeral (negative : Bool) (s : List Char) : Numeral × List Char :=
  match s with
  | '0' :: c :: s =>
    if isDecimal c then (⟨negative, [0], none, none, .leadingZero⟩, s)
    else readFraction ⟨negative, [0], none, none, .complete⟩ (c :: s)
  | s =>
    match readDigits s with
    | ([], rest) => (⟨negative, [], none, none, missingDigit rest⟩, rest)
    | (digits, rest) => readFraction ⟨negative, digits, none, none, .complete⟩ rest

theorem length_readDigits_le (s : List Char) : (readDigits s).2.length ≤ s.length :=
  (List.dropWhile_sublist _).length_le

theorem length_readExponent_le (n : Numeral) (s : List Char) :
    (readExponent n s).2.length ≤ s.length := by
  have key : ∀ (negative : Bool) (s : List Char),
      (match readDigits s with
        | ([], rest) => ({ n with ending := missingDigit rest }, rest)
        | (digits, rest) => ({ n with exponent := some ⟨negative, digits⟩ }, rest)
        : Numeral × List Char).2.length ≤ s.length := by
    intro negative s
    have := length_readDigits_le s
    split <;> simp_all
  unfold readExponent
  split
  rename_i s' h
  refine Nat.le_trans (key _ s') ?_
  split at h <;> simp only [Prod.mk.injEq] at h <;> obtain ⟨_, rfl⟩ := h <;> simp

theorem length_readExponent?_le (n : Numeral) (s : List Char) :
    (readExponent? n s).2.length ≤ s.length := by
  unfold readExponent?
  split
  · exact Nat.le_trans (length_readExponent_le ..) (by simp)
  · exact Nat.le_trans (length_readExponent_le ..) (by simp)
  · simp

theorem length_readFraction_le (n : Numeral) (s : List Char) :
    (readFraction n s).2.length ≤ s.length := by
  unfold readFraction
  split
  · rename_i s
    have hle := length_readDigits_le s
    split
    · rename_i h
      rw [h] at hle
      exact Nat.le_trans hle (by simp)
    · rename_i h
      rw [h] at hle
      exact Nat.le_trans (length_readExponent?_le ..) (Nat.le_trans hle (by simp))
  · exact length_readExponent?_le ..

theorem length_readNumeral_le (negative : Bool) (s : List Char) :
    (readNumeral negative s).2.length ≤ s.length := by
  unfold readNumeral
  split
  · split
    · simp only [List.length_cons]
      omega
    · exact Nat.le_trans (length_readFraction_le ..) (by simp)
  · have hle := length_readDigits_le s
    split
    · rename_i h
      rw [h] at hle
      exact hle
    · rename_i h
      rw [h] at hle
      exact Nat.le_trans (length_readFraction_le ..) hle

/-- A number that starts with a digit takes at least that digit. -/
theorem length_readNumeral_cons_le (negative : Bool) {c : Char} (h : isDecimal c = true)
    (s : List Char) : (readNumeral negative (c :: s)).2.length ≤ s.length := by
  unfold readNumeral
  split
  · rename_i h
    simp only [List.cons.injEq] at h
    obtain ⟨_, rfl⟩ := h
    split
    · simp
    · exact length_readFraction_le ..
  · have hle : (readDigits (c :: s)).2.length ≤ s.length := by
      simp only [readDigits, List.dropWhile_cons, h, if_true]
      exact (List.dropWhile_sublist _).length_le
    split
    · rename_i h
      rw [h] at hle
      exact hle
    · rename_i h
      rw [h] at hle
      exact Nat.le_trans (length_readFraction_le ..) hle

/-! ### Tokens -/

/-- Read the rest of a word whose first character stands for a value. -/
def readWord (value : Scalar) : List Char → List Char → Scalar × List Char
  | [], s => (value, s)
  | _ :: _, [] => (.misspelt .eofInValue, [])
  | c :: word, d :: s => if c = d then readWord value word s else (.misspelt .expectedIdent, [])

theorem length_readWord_le (value : Scalar) (word s : List Char) :
    (readWord value word s).2.length ≤ s.length := by
  fun_induction readWord value word s <;> simp only [List.length_cons, List.length_nil] <;> omega

def readToken (c : Char) (s : List Char) : Token × List Char :=
  match c with
  | '[' => (.openList, s)
  | ']' => (.closeList, s)
  | '{' => (.openObject, s)
  | '}' => (.closeObject, s)
  | ':' => (.colon, s)
  | ',' => (.comma, s)
  | '"' =>
    let (q, rest) := readQuoted [] s
    (.scalar (.string q), rest)
  | 'n' =>
    let (v, rest) := readWord .null ['u', 'l', 'l'] s
    (.scalar v, rest)
  | 't' =>
    let (v, rest) := readWord (.bool true) ['r', 'u', 'e'] s
    (.scalar v, rest)
  | 'f' =>
    let (v, rest) := readWord (.bool false) ['a', 'l', 's', 'e'] s
    (.scalar v, rest)
  | '-' =>
    let (n, rest) := readNumeral true s
    (.scalar (.number n), rest)
  | c =>
    if isDecimal c then
      let (n, rest) := readNumeral false (c :: s)
      (.scalar (.number n), rest)
    else (.junk, s)

theorem length_readToken_le (c : Char) (s : List Char) :
    (readToken c s).2.length ≤ s.length := by
  unfold readToken
  split
  all_goals first
    | exact Nat.le_refl _
    | exact length_readQuoted_le ..
    | exact length_readWord_le ..
    | exact length_readNumeral_le ..
    | skip
  split
  · exact length_readNumeral_cons_le _ ‹_› _
  · exact Nat.le_refl _

/-- Put the tokens of a text, latest first, in front of those read before. -/
def tokensOnto (read : List Token) (s : List Char) : List Token :=
  match s with
  | [] => read
  | c :: s =>
    if isJsonSpace c then tokensOnto read s
    else
      let next := readToken c s
      tokensOnto (next.1 :: read) next.2
termination_by s.length
decreasing_by
  · simp
  · exact Nat.lt_succ_of_le (length_readToken_le c s)

def tokensOf (s : List Char) : List Token := (tokensOnto [] s).reverse

end ControlStream
