/-!
# UTF-8

Characters as bytes and bytes as characters. Reading never fails: what is not UTF-8 is reported
piece by piece, each piece being the longest start of a character that the next byte, or the end
of the input, spoils.

## Main definitions

* `encodeUtf8`, `utf8Length`: the bytes of a text and their number.
* `scanUtf8`: the characters of a byte string, with `none` for every spoilt piece.
* `decodeUtf8Lossy`: the text with the replacement character for every spoilt piece.
* `decodeUtf8?`: the text of a byte string that has no spoilt piece.
-/

namespace ControlStream

def encodeUtf8 (s : List Char) : List UInt8 := s.flatMap String.utf8EncodeChar

def utf8Length (s : List Char) : Nat := s.foldl (fun n c => n + c.utf8Size) 0

/-- What the first byte of a character of several bytes tells about it. -/
structure Utf8Lead where
  /-- The bits of the code point it carries. -/
  bits : Nat
  /-- The least second byte. -/
  low : Nat
  /-- The greatest second byte. -/
  high : Nat
  /-- The number of bytes that follow. -/
  following : Nat

/-- Read the first byte of a character of several bytes. The bounds on the second byte leave out
overlong forms, surrogates and numbers above the last code point. -/
def utf8Lead? (b : Nat) : Option Utf8Lead :=
  if 0xC2 ≤ b ∧ b ≤ 0xDF then some ⟨b - 0xC0, 0x80, 0xBF, 1⟩
  else if b = 0xE0 then some ⟨0, 0xA0, 0xBF, 2⟩
  else if b = 0xED then some ⟨0xD, 0x80, 0x9F, 2⟩
  else if 0xE1 ≤ b ∧ b ≤ 0xEF then some ⟨b - 0xE0, 0x80, 0xBF, 2⟩
  else if b = 0xF0 then some ⟨0, 0x90, 0xBF, 3⟩
  else if 0xF1 ≤ b ∧ b ≤ 0xF3 then some ⟨b - 0xF0, 0x80, 0xBF, 3⟩
  else if b = 0xF4 then some ⟨4, 0x80, 0x8F, 3⟩
  else none

/-- Read the following bytes of a character, the first of them between `low` and `high`, onto the
bits read so far. A byte that does not fit is left for the next character. -/
def readFollowing (low high bits : Nat) : Nat → List UInt8 → Option Nat × List UInt8
  | 0, bytes => (some bits, bytes)
  | _ + 1, [] => (none, [])
  | n + 1, b :: bytes =>
    if low ≤ b.toNat ∧ b.toNat ≤ high then
      readFollowing 0x80 0xBF (bits * 64 + (b.toNat - 0x80)) n bytes
    else (none, b :: bytes)

/-- Read one character, or one spoilt piece, and return the bytes after it. -/
def readScalar (b : UInt8) (bytes : List UInt8) : Option Char × List UInt8 :=
  if b.toNat < 0x80 then (some (Char.ofNat b.toNat), bytes)
  else
    match utf8Lead? b.toNat with
    | none => (none, bytes)
    | some lead =>
      let (bits, rest) := readFollowing lead.low lead.high lead.bits lead.following bytes
      (bits.map Char.ofNat, rest)

theorem length_readFollowing_le (low high bits n : Nat) (bytes : List UInt8) :
    (readFollowing low high bits n bytes).2.length ≤ bytes.length := by
  induction n generalizing low high bits bytes with
  | zero => simp [readFollowing]
  | succ n ih =>
    cases bytes with
    | nil => simp [readFollowing]
    | cons b bytes =>
      simp only [readFollowing]
      split
      · exact Nat.le_trans (ih ..) (by simp)
      · simp

theorem length_readScalar_le (b : UInt8) (bytes : List UInt8) :
    (readScalar b bytes).2.length ≤ bytes.length := by
  unfold readScalar
  split
  · simp
  · split
    · simp
    · exact length_readFollowing_le ..

/-- Put the characters of a byte string, latest first, in front of those read before. -/
def scanUtf8Onto (read : List (Option Char)) (bytes : List UInt8) : List (Option Char) :=
  match bytes with
  | [] => read
  | b :: bytes =>
    let next := readScalar b bytes
    scanUtf8Onto (next.1 :: read) next.2
termination_by bytes.length
decreasing_by
  have := length_readScalar_le b bytes
  simp only [List.length_cons]
  omega

def scanUtf8 (bytes : List UInt8) : List (Option Char) :=
  (scanUtf8Onto [] bytes).reverse

def replacementChar : Char := '\ufffd'

/-- The text of a byte string, with the replacement character for what is not UTF-8. -/
def decodeUtf8Lossy (bytes : List UInt8) : List Char :=
  (scanUtf8 bytes).map (·.getD replacementChar)

def decodeUtf8? (bytes : List UInt8) : Option (List Char) :=
  if (scanUtf8 bytes).all Option.isSome then some ((scanUtf8 bytes).filterMap id) else none

end ControlStream
