import ControlStream.Text.ControlChar

/-!
# The payload of a string

Commands and control strings consist of a payload and a terminator: BEL, the character ST, or ESC
with a backslash. ESC with any other character ends the string as well, and that character then
belongs to a new escape sequence.

## Main definitions

* `Payload`: the characters collected so far, at most `limit` of them, and what is known of the end.
* `Payload.stage`: how far the string got.
* `Payload.feed`: take one character.
* `Payload.consume`: take characters up to the end of the string.
-/

namespace ControlStream

structure Payload where
  buffer : Array Char
  /-- The number of characters collected, counted as they arrive. -/
  length : Nat
  /-- The most characters that are kept. -/
  limit : Nat
  isComplete : Bool
  /-- An ESC has arrived, and not yet the character after it. -/
  isEscaped : Bool
  /-- The character that ended the string after an ESC, other than a backslash. -/
  interrupt : Option Char
  /-- Characters beyond the limit were dropped. -/
  overflowed : Bool
  deriving DecidableEq, Repr

namespace Payload

def empty (limit : Nat) : Payload := ⟨#[], 0, limit, false, false, none, false⟩

/-- The limit of a payload that is not meant to be limited. -/
def unlimited : Nat := Nat.pow 2 64 - 1

instance : Inhabited Payload := ⟨empty unlimited⟩

def setLimit (p : Payload) (limit : Nat) : Payload := { p with limit }

def reset (p : Payload) : Payload := empty p.limit

inductive Stage
  /-- The next character belongs to the payload, or starts the terminator. -/
  | collecting
  | escaped
  /-- The string has ended, if with ESC and a character other than the backslash then by that
  character. -/
  | ended (interrupt : Option Char)
  /-- A character is noted as the one that ended the string, but it has not ended. No string that
  began with an empty payload gets here. -/
  | stray
  deriving DecidableEq, Inhabited, Repr

def stage (p : Payload) : Stage :=
  if p.isComplete then .ended p.interrupt
  else if p.interrupt.isSome then .stray
  else if p.isEscaped then .escaped
  else .collecting

def chars (p : Payload) : List Char := p.buffer.toList

def isEmpty (p : Payload) : Bool := p.length == 0

def keep (p : Payload) (c : Char) : Payload :=
  if p.length < p.limit then { p with buffer := p.buffer.push c, length := p.length + 1 }
  else { p with overflowed := true }

/-- Take a character. After the end of the string nothing changes. -/
def feed (p : Payload) (c : Char) : Payload :=
  if p.isComplete then p
  else if p.isEscaped then
    { p with
      isComplete := true
      isEscaped := false
      interrupt := if c = '\\' then p.interrupt else some c }
  else if c = ControlChar.bel ∨ c = ControlChar.st then { p with isComplete := true }
  else if c = ControlChar.esc then { p with isEscaped := true }
  else p.keep c

/-- Take characters up to the end of the string, and return those after it. -/
def consume (p : Payload) : List Char → Payload × List Char
  | [] => (p, [])
  | c :: s =>
    let p := p.feed c
    if p.isComplete then (p, s) else p.consume s

@[simp] theorem limit_feed (p : Payload) (c : Char) : (p.feed c).limit = p.limit := by
  unfold feed keep
  repeat' split
  all_goals rfl

/-- A limit stays when a character is taken. -/
theorem setLimit_feed_setLimit (p : Payload) (n : Nat) (c : Char) :
    ((p.setLimit n).feed c).setLimit n = (p.setLimit n).feed c := by
  have hlimit : ((p.setLimit n).feed c).limit = n := limit_feed _ _
  generalize (p.setLimit n).feed c = q at hlimit ⊢
  subst hlimit
  rfl

section Stage

variable {p : Payload}

theorem stage_eq_ended_iff {interrupt : Option Char} :
    p.stage = .ended interrupt ↔ p.isComplete = true ∧ p.interrupt = interrupt := by
  unfold stage
  cases p.isComplete <;> cases p.interrupt <;> cases p.isEscaped <;> simp

theorem stage_eq_collecting_iff :
    p.stage = .collecting ↔
      p.isComplete = false ∧ p.interrupt = none ∧ p.isEscaped = false := by
  unfold stage
  cases p.isComplete <;> cases p.interrupt <;> cases p.isEscaped <;> simp

theorem stage_eq_escaped_iff :
    p.stage = .escaped ↔ p.isComplete = false ∧ p.interrupt = none ∧ p.isEscaped = true := by
  unfold stage
  cases p.isComplete <;> cases p.interrupt <;> cases p.isEscaped <;> simp

/-- A string has ended exactly if it has reached the last stage. -/
theorem isComplete_iff : p.isComplete = true ↔ ∃ interrupt, p.stage = .ended interrupt := by
  simp [stage_eq_ended_iff]

theorem isComplete_eq_false (h : ∀ interrupt, p.stage ≠ .ended interrupt) :
    p.isComplete = false := by
  rw [← Bool.not_eq_true, isComplete_iff]
  rintro ⟨interrupt, hended⟩
  exact h interrupt hended

end Stage

/-- After the end of the string nothing changes. -/
theorem feed_of_isComplete {p : Payload} (h : p.isComplete = true) (c : Char) : p.feed c = p := by
  simp [feed, h]

/-- At least one character is taken if there is one. -/
theorem length_consume_cons_le (p : Payload) (c : Char) (s : List Char) :
    (p.consume (c :: s)).2.length ≤ s.length := by
  induction s generalizing p c with
  | nil => simp only [consume]; split <;> simp
  | cons d s ih =>
    rw [consume]
    split
    · simp
    · exact Nat.le_trans (ih ..) (by simp)

end Payload

end ControlStream
