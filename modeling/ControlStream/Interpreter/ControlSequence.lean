import ControlStream.Interpreter.Context
import ControlStream.Text.Numeral

/-!
# Control sequences

A control sequence is a private marker, parameters between separators, intermediates and a final
character, all but the last optional. Two kinds have an effect: mode 4, whether text is inserted,
and the private mode 25, whether the cursor is shown. The others are read to their end and ignored.

## Main definitions

* `ControlSequence`: the marker, parameters and intermediates seen so far.
* `ControlSequence.accept`: add a character that is not the last one.
* `ControlSequence.finish`: the effect of the sequence.
* `ControlSequence.process`: take a character.
-/

namespace ControlStream

/-- Where in a control sequence the next character stands. -/
inductive ControlSequence.Phase
  | entry
  | param
  | intermediate
  /-- In a sequence that is not well formed and is read to its end. -/
  | ignore
  deriving DecidableEq, Inhabited, Repr

structure ControlSequence where
  phase : ControlSequence.Phase
  marker : Option Char
  /-- The complete parameters. -/
  params : List Nat
  /-- The value of the parameter in progress. -/
  value : Nat
  /-- The parameter in progress has a digit. -/
  hasDigit : Bool
  intermediates : List Char
  deriving DecidableEq, Inhabited, Repr

namespace ControlSequence

variable {σ κ : Type} [Screen σ]

def initial : ControlSequence := ⟨.entry, none, [], 0, false, []⟩

/-- The number of parameters from which on a separator spoils the sequence. -/
def maxParams : Nat := 32

def maxIntermediates : Nat := 2

/-- The greatest value of a parameter; greater numerals count as this. -/
def maxValue : Nat := Nat.pow 2 32 - 1

def isMarker (c : Char) : Bool := ['?', '>', '<', '='].contains c

def isSeparator (c : Char) : Bool := c == ';' || c == ':'

def inParams (s : ControlSequence) : Bool := s.phase = .entry || s.phase = .param

def pushParam (s : ControlSequence) : ControlSequence :=
  { s with params := s.params ++ [s.value], value := 0, hasDigit := false }

def addDigit (s : ControlSequence) (d : Nat) : ControlSequence :=
  { s with
    value := min (min (s.value * 10) maxValue + d) maxValue
    hasDigit := true
    phase := .param }

/-- Complete a parameter at a separator, unless there are enough. -/
def addSeparator (s : ControlSequence) : ControlSequence :=
  if s.params.length ≥ maxParams then { s with phase := .ignore }
  else { s.pushParam with phase := .param }

/-- Add an intermediate, unless there are enough. The first one completes the last parameter. -/
def addIntermediate (s : ControlSequence) (c : Char) : ControlSequence :=
  if s.intermediates.length ≥ maxIntermediates then { s with phase := .ignore }
  else
    let s := if s.hasDigit then s.pushParam else s
    { s with intermediates := s.intermediates ++ [c], phase := .intermediate }

def accept (s : ControlSequence) (c : Char) : ControlSequence :=
  if s.phase = .ignore then s
  else if s.phase = .entry ∧ isMarker c then { s with marker := some c, phase := .param }
  else if s.inParams ∧ isDecimal c then s.addDigit (c.toNat - 0x30)
  else if s.inParams ∧ isSeparator c then s.addSeparator
  else if isIntermediate c then s.addIntermediate c
  else { s with phase := .ignore }

/-- `c` is the separator after the last parameter that is kept. -/
def overruns (s : ControlSequence) (c : Char) : Bool :=
  s.inParams && isSeparator c && decide (s.params.length ≥ maxParams)

/-- The parameters when the final character arrives: one that was begun, or that follows a
separator, is completed. -/
def finalParams (s : ControlSequence) : List Nat :=
  if s.hasDigit || !s.params.isEmpty then s.pushParam.params else s.params

def setMode (enabled : Bool) (ctx : Context σ κ) (mode : Nat) : Context σ κ :=
  if mode = 4 then
    ((ctx.log (.insertMode enabled)).setKey .insertMode enabled).setScreenInsert enabled
  else ctx.log (.ignoredMode mode)

def setPrivateMode (enabled : Bool) (ctx : Context σ κ) (mode : Nat) : Context σ κ :=
  if mode = 25 then (ctx.log (.cursorVisible enabled)).setKey .cursorVisible enabled
  else ctx.log (.ignoredPrivateMode mode)

/-- The effect of a well-formed sequence with final character `c`: `h` turns the modes among the
parameters on and `l` turns them off. -/
def finish (s : ControlSequence) (c : Char) (ctx : Context σ κ) : Context σ κ :=
  let params := s.finalParams
  if (c = 'h' ∨ c = 'l') ∧ s.intermediates = [] ∧ s.marker = none then
    params.foldl (setMode (c == 'h')) ctx
  else if (c = 'h' ∨ c = 'l') ∧ s.intermediates = [] ∧ s.marker = some '?' then
    params.foldl (setPrivateMode (c == 'h')) ctx
  else ctx.log (.ignoredCsi s.marker params (String.ofList s.intermediates) c)

/-- Take a character. ESC starts an escape sequence, CAN and SUB end this one, other C0 characters
but NUL are executed, and NUL and DEL are dropped. -/
def process (s : ControlSequence) (c : Char) (ctx : Context σ κ) : Step ControlSequence σ κ :=
  if c = ControlChar.esc then ⟨.escape, initial, ctx⟩
  else if c = ControlChar.can ∨ c = ControlChar.sub then ⟨.ready, initial, ctx⟩
  else if isExecutable c then ⟨.control, s, ctx.executeControl c⟩
  else if c = ControlChar.nul ∨ c = ControlChar.del then ⟨.control, s, ctx⟩
  else if isControlFinal c then
    if s.phase = .ignore then ⟨.ready, initial, ctx.log (.malformedCsi c)⟩
    else ⟨.ready, initial, s.finish c ctx⟩
  else if s.overruns c then ⟨.control, s.accept c, ctx.log (.tooManyParameters maxParams)⟩
  else ⟨.control, s.accept c, ctx⟩

end ControlSequence

end ControlStream
