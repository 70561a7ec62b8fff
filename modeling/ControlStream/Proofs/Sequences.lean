import Mathlib.Tactic.SplitIfs
import ControlStream.Interpreter.ControlSequence
import ControlStream.Interpreter.EscapeSequence

/-!
# Steps of sequences

What a character is to an escape sequence or a control sequence, its role, depends on the part of
the sequence that was seen and not on the context. What a step preserves is shown role by role.

## Main definitions

* `EscapeSequence.role`, `ControlSequence.role`: what a character is to a sequence.

## Main statements

* `EscapeSequence.process_eq_step`, `ControlSequence.process_eq_step`: a character has the effect of
  its role.
* `EscapeSequence.process_spec`, `ControlSequence.process_spec`: a sequence goes on, or it is over
  and leaves nothing behind.
-/

namespace ControlStream

open ControlChar

variable {σ κ : Type} [Screen σ]

/-! ### Escape sequences -/

namespace EscapeSequence

/-- What a character is to an escape sequence. -/
inductive Role
  /-- The sequence starts over. -/
  | introducer
  | canceller
  | executed
  | intermediate (seen : Intermediate)
  /-- The end of a sequence without intermediates. -/
  | final
  /-- The end of a sequence with intermediates. -/
  | finalAfter (seen : Intermediate)

def role (e : EscapeSequence) (c : Char) : Role :=
  if c = esc then .introducer
  else if c = can ∨ c = sub then .canceller
  else if isExecutable c then .executed
  else
    match e.intermediate with
    | none => if isIntermediate c then .intermediate (.ofChar c) else .final
    | some seen => if isIntermediate c then .intermediate (.other c) else .finalAfter seen

def Role.step (e : EscapeSequence) (c : Char) (ctx : Context σ κ) :
    Role → Step EscapeSequence σ κ
  | introducer => ⟨.escape, initial, ctx⟩
  | canceller => ⟨.ready, initial, ctx⟩
  | executed => ⟨.escape, e, ctx.executeControl c⟩
  | intermediate seen => ⟨.escape, ⟨some seen⟩, ctx⟩
  | final => ⟨(finish c ctx).1, initial, (finish c ctx).2⟩
  | finalAfter seen => ⟨.ready, initial, finishWith seen c ctx⟩

theorem process_eq_step (e : EscapeSequence) (c : Char) (ctx : Context σ κ) :
    e.process c ctx = (e.role c).step e c ctx := by
  unfold process role
  cases e.intermediate <;> split_ifs <;> rfl

theorem finish_ne_text (c : Char) (ctx : Context σ κ) : (finish c ctx).1 ≠ .text := by
  unfold finish
  split <;> simp

/-- An escape sequence goes on, or it is over and leaves nothing behind. -/
theorem process_spec (e : EscapeSequence) (c : Char) (ctx : Context σ κ) :
    (e.process c ctx).state = .escape ∨
      (e.process c ctx).state ≠ .text ∧ (e.process c ctx).part = .initial := by
  rw [process_eq_step]
  cases e.role c with
  | introducer | executed | intermediate => exact .inl rfl
  | canceller | finalAfter => exact .inr ⟨by simp [Role.step], rfl⟩
  | final => exact .inr ⟨finish_ne_text c ctx, rfl⟩

end EscapeSequence

/-! ### Control sequences -/

namespace ControlSequence

/-- What a character is to a control sequence. -/
inductive Role
  /-- An escape sequence starts. -/
  | introducer
  | canceller
  | executed
  | filler
  /-- The end of a sequence that is not well formed. -/
  | malformedFinal
  | final
  /-- A separator after the last parameter that is kept. -/
  | overrun
  | accepted

def role (s : ControlSequence) (c : Char) : Role :=
  if c = esc then .introducer
  else if c = can ∨ c = sub then .canceller
  else if isExecutable c then .executed
  else if c = nul ∨ c = del then .filler
  else if isControlFinal c then if s.phase = .ignore then .malformedFinal else .final
  else if s.overruns c then .overrun
  else .accepted

def Role.step (s : ControlSequence) (c : Char) (ctx : Context σ κ) :
    Role → Step ControlSequence σ κ
  | introducer => ⟨.escape, initial, ctx⟩
  | canceller => ⟨.ready, initial, ctx⟩
  | executed => ⟨.control, s, ctx.executeControl c⟩
  | filler => ⟨.control, s, ctx⟩
  | malformedFinal => ⟨.ready, initial, ctx.log (.malformedCsi c)⟩
  | final => ⟨.ready, initial, s.finish c ctx⟩
  | overrun => ⟨.control, s.accept c, ctx.log (.tooManyParameters maxParams)⟩
  | accepted => ⟨.control, s.accept c, ctx⟩

theorem process_eq_step (s : ControlSequence) (c : Char) (ctx : Context σ κ) :
    s.process c ctx = (s.role c).step s c ctx := by
  unfold process role
  split_ifs <;> rfl

/-- A control sequence goes on, or it is over and leaves nothing behind. -/
theorem process_spec (s : ControlSequence) (c : Char) (ctx : Context σ κ) :
    (s.process c ctx).state = .control ∨
      ((s.process c ctx).state = .ready ∨ (s.process c ctx).state = .escape) ∧
        (s.process c ctx).part = .initial := by
  rw [process_eq_step]
  cases s.role c with
  | executed | filler | overrun | accepted => exact .inl rfl
  | canceller | malformedFinal | final => exact .inr ⟨.inl rfl, rfl⟩
  | introducer => exact .inr ⟨.inr rfl, rfl⟩

end ControlSequence

end ControlStream
