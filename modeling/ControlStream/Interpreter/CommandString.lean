import ControlStream.Interpreter.Collect
import ControlStream.Interpreter.Command

/-!
# Collecting commands

A command is collected from as many deliveries as it takes and applied when its string ends.

## Main definitions

* `CommandString`: the payload collected so far.
* `CommandString.finish`: the effect of the complete string.
* `CommandString.process`: take a character and those after it up to the end of the string.
-/

namespace ControlStream

structure CommandString where
  payload : Payload
  deriving DecidableEq, Inhabited, Repr

namespace CommandString

variable {σ κ : Type} [Clipboard κ]

def initial : CommandString := ⟨.empty Payload.unlimited⟩

def reset (s : CommandString) : CommandString := ⟨s.payload.reset⟩

/-- The effect of a complete string. One that lost characters has none. -/
def finish (s : CommandString) (ctx : Context σ κ) : Context σ κ :=
  if s.payload.overflowed then ctx.log (.overflow ctx.settings.payloadLimit)
  else ctx.applyPayload s.payload.chars

def process (s : CommandString) (c : Char) (input : Input) (ctx : Context σ κ) :
    Except SlotOccupied (Step CommandString σ κ × Input) := do
  let collected ← (s.payload.setLimit ctx.settings.payloadLimit).collect c input
  let s : CommandString := ⟨collected.payload⟩
  match collected.next with
  | some state => return (⟨state, s.reset, s.finish ctx⟩, collected.input)
  | none => return (⟨.command, s, ctx⟩, collected.input)

/-- After a read taking a character does not fail. -/
theorem process_ok (s : CommandString) (c : Char) {input : Input} (h : input.slot = none)
    (ctx : Context σ κ) : ∃ result, s.process c input ctx = .ok result := by
  obtain ⟨collected, hcollect⟩ :=
    (s.payload.setLimit ctx.settings.payloadLimit).collect_ok c h
  simp only [process, hcollect, bind, Except.bind]
  split <;> exact ⟨_, rfl⟩

/-- As many characters are left as before only if the string has ended. -/
theorem length_process {s : CommandString} {c : Char} {input : Input} (hslot : input.slot = none)
    {ctx : Context σ κ} {result : Step CommandString σ κ × Input}
    (h : s.process c input ctx = .ok result) :
    result.2.length ≤ input.length ∨
      result.2.length = input.length + 1 ∧ result.1.state = .escape := by
  obtain ⟨collected, hcollect⟩ :=
    (s.payload.setLimit ctx.settings.payloadLimit).collect_ok c hslot
  have hlength := Payload.length_collect hslot hcollect
  simp only [process, hcollect, bind, Except.bind, pure, Except.pure] at h
  split at h <;> cases h <;> simp_all

end CommandString

end ControlStream
