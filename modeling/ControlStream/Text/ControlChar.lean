/-!
# Control characters

Single characters that introduce, terminate or interrupt something in a control stream, and the
classes of characters the interpreter tells apart.

## Main definitions

* `ControlChar.esc`, `ControlChar.bel`, ... : the control characters with a meaning of their own.
* `isControl`: the control characters of Unicode, U+0000 to U+001F and U+007F to U+009F.
* `endsText`: the characters that end a run of printable text.
* `isExecutable`: the characters that are executed at once, also inside an escape sequence.
* `isIntermediate`, `isGraphicFinal`, `isControlFinal`: the character ranges escape sequences are
  made of.
-/

namespace ControlStream

namespace ControlChar

/-- Null, ignored outside strings. -/
abbrev nul : Char := '\x00'

/-- Bell; it also terminates a string. -/
abbrev bel : Char := '\x07'

abbrev bs : Char := '\x08'

abbrev tab : Char := '\x09'

abbrev lf : Char := '\x0a'

abbrev vt : Char := '\x0b'

abbrev ff : Char := '\x0c'

abbrev cr : Char := '\x0d'

/-- Shift out: invoke the character set G1. -/
abbrev so : Char := '\x0e'

/-- Shift in: invoke the character set G0. -/
abbrev si : Char := '\x0f'

/-- Cancel: abort the escape sequence in progress. -/
abbrev can : Char := '\x18'

/-- Substitute: abort the escape sequence in progress. -/
abbrev sub : Char := '\x1a'

/-- Escape: introduce a sequence, or begin the two-character end of a string. -/
abbrev esc : Char := '\x1b'

/-- Delete, ignored outside strings. -/
abbrev del : Char := '\x7f'

/-- Device control string introducer. -/
abbrev dcs : Char := '\u0090'

/-- Start of string. -/
abbrev sos : Char := '\u0098'

/-- Control sequence introducer. -/
abbrev csi : Char := '\u009b'

/-- String terminator. -/
abbrev st : Char := '\u009c'

/-- Operating system command introducer. -/
abbrev osc : Char := '\u009d'

/-- Privacy message introducer. -/
abbrev pm : Char := '\u009e'

/-- Application program command introducer. -/
abbrev apc : Char := '\u009f'

end ControlChar

/-- The code point of `c` lies between `low` and `high`, both included. -/
def inRange (low high : Nat) (c : Char) : Bool :=
  decide (low ≤ c.toNat) && decide (c.toNat ≤ high)

/-- A control character: U+0000 to U+001F (C0), U+007F, or U+0080 to U+009F (C1). -/
def isControl (c : Char) : Bool :=
  inRange 0x00 0x1F c || inRange 0x7F 0x9F c

/-- The control characters that end a run of text and act on it or on the screen. -/
def textEnders : List Char :=
  [ControlChar.esc, ControlChar.bel, ControlChar.cr, ControlChar.lf, ControlChar.ff,
    ControlChar.vt, ControlChar.bs, ControlChar.tab]

/-- `c` ends a run of printable text. Every control character does, except NUL, which is dropped
without ending the run it stands in. -/
def endsText (c : Char) : Bool :=
  textEnders.contains c || (c != ControlChar.nul && isControl c)

/-- `c` is a C0 control character that is executed when it is met, also inside an escape
sequence: every one but NUL and ESC. -/
def isExecutable (c : Char) : Bool :=
  inRange 0x01 0x1F c && c != ControlChar.esc

/-- `c` may stand between the introducer of an escape sequence and its final character. -/
def isIntermediate (c : Char) : Bool :=
  inRange 0x20 0x2F c

/-- `c` may be the final character of a character set designation. -/
def isGraphicFinal (c : Char) : Bool :=
  inRange 0x30 0x7E c

def isControlFinal (c : Char) : Bool :=
  inRange 0x40 0x7E c

def isDecimal (c : Char) : Bool :=
  inRange 0x30 0x39 c

@[simp] theorem inRange_iff {low high : Nat} {c : Char} :
    inRange low high c = true ↔ low ≤ c.toNat ∧ c.toNat ≤ high := by
  simp [inRange]

theorem isControl_iff {c : Char} :
    isControl c = true ↔ c.toNat ≤ 0x1F ∨ 0x7F ≤ c.toNat ∧ c.toNat ≤ 0x9F := by
  simp [isControl]

/-- The listed enders are control characters other than NUL, so listing them adds nothing. -/
theorem endsText_eq (c : Char) : endsText c = (c != ControlChar.nul && isControl c) := by
  unfold endsText
  by_cases h : textEnders.contains c = true
  · simp only [textEnders, List.contains_eq_mem, List.mem_cons, List.not_mem_nil, or_false,
      decide_eq_true_eq] at h
    rcases h with h | h | h | h | h | h | h | h <;> subst h <;> decide
  · rw [Bool.eq_false_iff.mpr h, Bool.false_or]

/-- An executable character is a control character. -/
theorem isControl_of_isExecutable {c : Char} (h : isExecutable c = true) : isControl c = true := by
  simp only [isExecutable, Bool.and_eq_true, inRange_iff] at h
  simp only [isControl, Bool.or_eq_true, inRange_iff]
  omega

end ControlStream
