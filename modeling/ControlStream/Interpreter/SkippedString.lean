import ControlStream.Interpreter.Collect

/-!
# Strings that are skipped

Device control strings, application commands, privacy messages and other strings are not
interpreted. They are skipped up to their end, so that nothing of them shows on the screen.

## Main definitions

* `SkippedString`: how far the string got, and how many characters of it were skipped.
* `SkippedString.process`: skip a character and those after it up to the end of the string.
-/

namespace ControlStream

structure SkippedString where
  /-- Finds the end of the string and keeps nothing of it. -/
  payload : Payload
  /-- The number of characters skipped. It is a machine word and begins anew where it overflows. -/
  skipped : UInt64
  deriving DecidableEq, Inhabited, Repr

namespace SkippedString

variable {σ κ : Type}

def initial : SkippedString := ⟨.empty 0, 0⟩

def reset (s : SkippedString) : SkippedString := ⟨s.payload.reset, 0⟩

def process (s : SkippedString) (c : Char) (input : Input) (ctx : Context σ κ) :
    Except SlotOccupied (Step SkippedString σ κ × Input) := do
  let collected ← s.payload.collect c input
  let s : SkippedString := ⟨collected.payload, s.skipped + .ofNat collected.count⟩
  match collected.next with
  | some state =>
    return (⟨state, s.reset, ctx.log (.ignoredString s.skipped.toNat)⟩, collected.input)
  | none => return (⟨.skipped, s, ctx⟩, collected.input)

/-- After a read skipping a character does not fail. -/
theorem process_ok (s : SkippedString) (c : Char) {input : Input} (h : input.slot = none)
    (ctx : Context σ κ) : ∃ result, s.process c input ctx = .ok result := by
  obtain ⟨collected, hcollect⟩ := s.payload.collect_ok c h
  simp only [process, hcollect, bind, Except.bind]
  split <;> exact ⟨_, rfl⟩

/-- As many characters are left as before only if the string has ended. -/
theorem length_process {s : SkippedString} {c : Char} {input : Input}
    (hslot : input.slot = none) {ctx : Context σ κ} {result : Step SkippedString σ κ × Input}
    (h : s.process c input ctx = .ok result) :
    result.2.length ≤ input.length ∨
      result.2.length = input.length + 1 ∧ result.1.state = .escape := by
  obtain ⟨collected, hcollect⟩ := s.payload.collect_ok c hslot
  have hlength := Payload.length_collect hslot hcollect
  simp only [process, hcollect, bind, Except.bind, pure, Except.pure] at h
  split at h <;> cases h <;> simp_all

end SkippedString

end ControlStream
