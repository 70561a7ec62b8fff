/-!
# Base64

Reading and writing bytes in the standard base64 alphabet. In what is read, the padding at the end
may be complete, partial or absent; unused bits in the last symbol must be zero, and no other byte
may stand between the symbols.

## Main definitions

* `Base64.Error`: what is wrong with a text, and `Base64.Error.message`.
* `Base64.decode`: the bytes a text stands for.
* `Base64.encode`: the text of some bytes, padded.
-/

namespace ControlStream.Base64

inductive Error
  /-- A byte outside the alphabet, or padding in the wrong place, at an offset. -/
  | invalidSymbol (byte : UInt8) (offset : Nat)
  /-- The text ends after a single symbol of a group. -/
  | invalidLength (length : Nat)
  /-- The last symbol has bits set that belong to no byte. -/
  | invalidLastSymbol (byte : UInt8) (offset : Nat)
  deriving DecidableEq, Repr

def Error.message : Error → String
  | invalidSymbol byte offset => s!"Invalid symbol {byte.toNat}, offset {offset}."
  | invalidLength length => s!"Invalid input length: {length}"
  | invalidLastSymbol byte offset => s!"Invalid last symbol {byte.toNat}, offset {offset}."

def pad : UInt8 := 0x3D

def value? (b : UInt8) : Option Nat :=
  let n := b.toNat
  if 0x41 ≤ n ∧ n ≤ 0x5A then some (n - 0x41)
  else if 0x61 ≤ n ∧ n ≤ 0x7A then some (n - 0x61 + 26)
  else if 0x30 ≤ n ∧ n ≤ 0x39 then some (n - 0x30 + 52)
  else if n = 0x2B then some 62
  else if n = 0x2F then some 63
  else none

/-- The symbol of a value below 64. -/
def symbol (v : Nat) : UInt8 :=
  if v < 26 then UInt8.ofNat (v + 0x41)
  else if v < 52 then UInt8.ofNat (v - 26 + 0x61)
  else if v < 62 then UInt8.ofNat (v - 52 + 0x30)
  else if v = 62 then 0x2B
  else 0x2F

def valueAt (offset : Nat) (b : UInt8) : Except Error Nat :=
  match value? b with
  | some v => .ok v
  | none => .error (.invalidSymbol b offset)

def bytesOfValues (v₀ v₁ v₂ v₃ : Nat) : List UInt8 :=
  let n := ((v₀ * 64 + v₁) * 64 + v₂) * 64 + v₃
  [UInt8.ofNat (n / 65536), UInt8.ofNat (n / 256), UInt8.ofNat n]

/-- The three bytes of a group of four symbols that is not the last. -/
def decodeGroup (offset : Nat) (b₀ b₁ b₂ b₃ : UInt8) : Except Error (List UInt8) := do
  let v₀ ← valueAt offset b₀
  let v₁ ← valueAt (offset + 1) b₁
  let v₂ ← valueAt (offset + 2) b₂
  let v₃ ← valueAt (offset + 3) b₃
  return bytesOfValues v₀ v₁ v₂ v₃

/-- Read the last group byte by byte: its symbols, each with its value. `position` counts the bytes
of the group read so far, and `padding` is the offset of the first padding byte among them. Padding
may not stand where a byte still needs a symbol, and no symbol may follow it. -/
def lastSymbols (offset position : Nat) (padding : Option Nat) :
    List UInt8 → Except Error (List (UInt8 × Nat))
  | [] => .ok []
  | b :: bytes =>
    if b = pad then
      if position < 2 then .error (.invalidSymbol b offset)
      else lastSymbols (offset + 1) (position + 1) (padding.or (some offset)) bytes
    else
      match padding with
      | some first => .error (.invalidSymbol pad first)
      | none => do
        let v ← valueAt offset b
        let symbols ← lastSymbols (offset + 1) (position + 1) none bytes
        return (b, v) :: symbols

def bytesOfLast (offset : Nat) : List (UInt8 × Nat) → Except Error (List UInt8)
  | [] => .ok []
  | [_] => .error (.invalidLength (offset + 1))
  | [(_, v₀), (b₁, v₁)] =>
    if v₁ % 16 = 0 then .ok ((bytesOfValues v₀ v₁ 0 0).take 1)
    else .error (.invalidLastSymbol b₁ (offset + 1))
  | [(_, v₀), (_, v₁), (b₂, v₂)] =>
    if v₂ % 4 = 0 then .ok ((bytesOfValues v₀ v₁ v₂ 0).take 2)
    else .error (.invalidLastSymbol b₂ (offset + 2))
  | (_, v₀) :: (_, v₁) :: (_, v₂) :: (_, v₃) :: _ => .ok (bytesOfValues v₀ v₁ v₂ v₃)

/-- Read the last group, which has at most four bytes and starts at an offset. -/
def decodeLast (offset : Nat) (bytes : List UInt8) : Except Error (List UInt8) := do
  bytesOfLast offset (← lastSymbols offset 0 none bytes)

/-- Read the groups from an offset on, after the bytes `done`, latest first. -/
def decodeGroups (offset : Nat) (done : List UInt8) : List UInt8 → Except Error (List UInt8)
  | b₀ :: b₁ :: b₂ :: b₃ :: b₄ :: bytes =>
    match decodeGroup offset b₀ b₁ b₂ b₃ with
    | .error e => .error e
    | .ok group => decodeGroups (offset + 4) (group.reverse ++ done) (b₄ :: bytes)
  | last =>
    match decodeLast offset last with
    | .error e => .error e
    | .ok group => .ok (done.reverse ++ group)

/-- A single byte left after all groups of four that is neither a symbol nor padding. It is
reported before anything else. -/
def strayByte? (bytes : List UInt8) : Option Error :=
  match bytes.getLast? with
  | none => none
  | some b =>
    if bytes.length % 4 = 1 ∧ b ≠ pad ∧ value? b = none then
      some (.invalidSymbol b (bytes.length - 1))
    else none

def decode (bytes : List UInt8) : Except Error (List UInt8) :=
  match strayByte? bytes with
  | some e => .error e
  | none => decodeGroups 0 [] bytes

def encodeGroup (a b c : UInt8) : List UInt8 :=
  let n := (a.toNat * 256 + b.toNat) * 256 + c.toNat
  [symbol (n / 262144), symbol (n / 4096 % 64), symbol (n / 64 % 64), symbol (n % 64)]

def encode : List UInt8 → List UInt8
  | [] => []
  | [a] => (encodeGroup a 0 0).take 2 ++ [pad, pad]
  | [a, b] => (encodeGroup a b 0).take 3 ++ [pad]
  | a :: b :: c :: bytes => encodeGroup a b c ++ encode bytes

end ControlStream.Base64
