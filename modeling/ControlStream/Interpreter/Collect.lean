import ControlStream.Interpreter.Context
import ControlStream.Interpreter.Input
import ControlStream.Interpreter.Payload

/-!
# Collecting strings

Commands and skipped strings arrive in the same way: a character and those after it are taken from
the input up to the end of the string. The character that ends a string after an ESC is read
again, as the start of an escape sequence.

## Main definitions

* `Collected`: what is left once characters were taken for a string.
* `Payload.collect`: take characters for a string.

## Main statements

* `Payload.collect_ok`: after a read there is room to put characters back.
* `Payload.length_collect`: the input only grows back if the string has ended.
-/

namespace ControlStream

/-- What is left once characters were taken for a string. -/
structure Collected where
  payload : Payload
  /-- The number of characters taken, the one that ended the string not counted. -/
  count : Nat
  /-- Who receives the next character, if the string has ended. -/
  next : Option Interpreter.State
  input : Input
  deriving DecidableEq, Repr

namespace Payload

/-- Take a character and those after it for a string, up to its end. -/
def collect (p : Payload) (c : Char) (input : Input) : Except SlotOccupied Collected := do
  let input ← input.pushBack c
  let (payload, rest) := p.consume input.toList
  let count := input.length - rest.length
  let left : Input := ⟨none, rest⟩
  match payload.stage with
  | .ended none => return ⟨payload, count - 1, some .ready, left⟩
  | .ended (some d) => return ⟨payload, count - 1, some .escape, ← left.pushBack d⟩
  | _ => return ⟨payload, count, none, left⟩

/-- After a read there is room to put characters back, so collecting does not fail. -/
theorem collect_ok (p : Payload) (c : Char) {input : Input} (h : input.slot = none) :
    ∃ result, p.collect c input = .ok result := by
  simp only [collect, Input.pushBack_of_slot h, bind, Except.bind]
  split <;> exact ⟨_, rfl⟩

/-- As many characters are left as before only if an ESC sequence follows. -/
theorem length_collect {p : Payload} {c : Char} {input : Input} (hslot : input.slot = none)
    {result : Collected} (h : p.collect c input = .ok result) :
    result.input.length ≤ input.length ∨
      result.input.length = input.length + 1 ∧ result.next = some .escape := by
  obtain ⟨slot, queue⟩ := input
  simp only at hslot
  subst hslot
  have hle : (p.consume (Input.mk (some c) queue).toList).2.length ≤ queue.length :=
    length_consume_cons_le p c queue
  simp only [collect, Input.pushBack_mk_none, bind, Except.bind, pure, Except.pure] at h
  split at h <;> cases h
  · left
    simpa [Input.length] using hle
  · rcases Nat.lt_or_eq_of_le hle with hlt | heq
    · left
      simpa [Input.length] using Nat.succ_le_of_lt hlt
    · right
      simp [Input.length, heq]
  · left
    simpa [Input.length] using hle

end Payload

end ControlStream
