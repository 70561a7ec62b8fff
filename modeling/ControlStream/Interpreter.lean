import ControlStream.Interpreter.CommandString
import ControlStream.Interpreter.ControlSequence
import ControlStream.Interpreter.EscapeSequence
import ControlStream.Interpreter.SkippedString
import ControlStream.Interpreter.TextRun

/-!
# The interpreter

Every character goes to the part of the interpreter that the state names. When nothing is in
progress the character itself decides what starts. The state outlives a delivery, so a
sequence that is cut off goes on with the next one.

## Main definitions

* `Opening`: what a character starts.
* `Interpreter`: the state and the parts.
* `Interpreter.step`: interpret one character.
* `Interpreter.run`: interpret everything in the input.
* `Interpreter.runAll`: the same without the possibility of failure, by `Interpreter.run_ok`.
-/

namespace ControlStream

/-- What a character means when nothing is in progress. -/
inductive Opening
  | escape
  | control
  | command
  | skipped
  /-- NUL, which only matters to a run of text that waits. -/
  | nul
  | del
  /-- A C0 control character to execute. -/
  | execute
  /-- A C1 control character that starts nothing. -/
  | ignored
  | text
  deriving DecidableEq, Repr

/-- The control characters that open a string without effect: DCS, SOS, PM and APC. -/
def skippedOpeners : List Char :=
  [ControlChar.dcs, ControlChar.sos, ControlChar.pm, ControlChar.apc]

def Opening.ofChar (c : Char) : Opening :=
  if c = ControlChar.esc then escape
  else if c = ControlChar.csi then control
  else if c = ControlChar.osc then command
  else if skippedOpeners.contains c then skipped
  else if c = ControlChar.nul then nul
  else if c = ControlChar.del then del
  else if isExecutable c then execute
  else if inRange 0x80 0x9F c then ignored
  else text

/-- Who is to receive the next character, and what each part has in progress. -/
structure Interpreter where
  state : Interpreter.State
  textRun : TextRun
  escape : EscapeSequence
  control : ControlSequence
  command : CommandString
  skipped : SkippedString
  deriving DecidableEq, Repr

structure Delivery (σ κ : Type) where
  interpreter : Interpreter
  input : Input
  context : Context σ κ

namespace Interpreter

variable {σ κ : Type} [Screen σ] [Clipboard κ]

def initial : Interpreter := ⟨.ready, .empty, .initial, .initial, .initial, .initial⟩

instance : Inhabited Interpreter := ⟨initial⟩

def reset (i : Interpreter) : Interpreter where
  state := .ready
  textRun := .empty
  escape := .initial
  control := .initial
  command := i.command.reset
  skipped := i.skipped.reset

def continueText (i : Interpreter) (c : Char) (input : Input) (ctx : Context σ κ) :
    Delivery σ κ :=
  let step := i.textRun.process c input.peek ctx
  ⟨{ i with state := step.state, textRun := step.part }, input, step.context⟩

/-- Interpret a character when nothing is in progress. -/
def start (i : Interpreter) (c : Char) (input : Input) (ctx : Context σ κ) : Delivery σ κ :=
  match Opening.ofChar c with
  | .escape => ⟨{ i with state := .escape }, input, ctx⟩
  | .control => ⟨{ i with state := .control }, input, ctx⟩
  | .command => ⟨{ i with state := .command }, input, ctx⟩
  | .skipped => ⟨{ i with state := .skipped }, input, ctx⟩
  | .nul =>
    if i.textRun.pending.isEmpty then ⟨{ i with state := .ready }, input, ctx⟩
    else i.continueText c input ctx
  | .del => ⟨{ i with state := .ready }, input, ctx⟩
  | .execute => ⟨{ i with state := .ready }, input, ctx.executeControl c⟩
  | .ignored => ⟨{ i with state := .ready }, input, ctx.log (.ignoredC1 c)⟩
  | .text => i.continueText c input ctx

/-- Interpret a character. `input` has the characters after it. -/
def step (i : Interpreter) (c : Char) (input : Input) (ctx : Context σ κ) :
    Except SlotOccupied (Delivery σ κ) :=
  match i.state with
  | .ready => .ok (i.start c input ctx)
  | .text => .ok (i.continueText c input ctx)
  | .escape =>
    let step := i.escape.process c ctx
    .ok ⟨{ i with state := step.state, escape := step.part }, input, step.context⟩
  | .control =>
    let step := i.control.process c ctx
    .ok ⟨{ i with state := step.state, control := step.part }, input, step.context⟩
  | .command => do
    let (step, input) ← i.command.process c input ctx
    return ⟨{ i with state := step.state, command := step.part }, input, step.context⟩
  | .skipped => do
    let (step, input) ← i.skipped.process c input ctx
    return ⟨{ i with state := step.state, skipped := step.part }, input, step.context⟩

/-- What is left to do: twice the number of characters, and one more inside a string. A string that
is interrupted gives back the character that ended it, but it is not a string any more. -/
def work (i : Interpreter) (input : Input) : Nat :=
  2 * input.length + if i.state.isString then 1 else 0

/-- Outside of strings no more is read, and what strings have in progress stays. -/
theorem step_cases {i : Interpreter} {c : Char} {input : Input} {ctx : Context σ κ}
    {next : Delivery σ κ} (h : i.step c input ctx = .ok next) :
    (i.state.isString = false ∧ next.input = input ∧ next.interpreter.skipped = i.skipped) ∨
    (i.state = .command ∧ ∃ result, i.command.process c input ctx = .ok result ∧
      next = ⟨{ i with state := result.1.state, command := result.1.part }, result.2,
        result.1.context⟩) ∨
    (i.state = .skipped ∧ ∃ result, i.skipped.process c input ctx = .ok result ∧
      next = ⟨{ i with state := result.1.state, skipped := result.1.part }, result.2,
        result.1.context⟩) := by
  unfold step at h
  split at h
  · rename_i hstate
    cases h
    refine .inl ⟨by rw [hstate]; rfl, ?_⟩
    unfold start
    split <;> first | exact ⟨rfl, rfl⟩ | (split <;> exact ⟨rfl, rfl⟩)
  · rename_i hstate
    cases h
    exact .inl ⟨by rw [hstate]; rfl, rfl, rfl⟩
  · rename_i hstate
    cases h
    exact .inl ⟨by rw [hstate]; rfl, rfl, rfl⟩
  · rename_i hstate
    cases h
    exact .inl ⟨by rw [hstate]; rfl, rfl, rfl⟩
  · rename_i hstate
    cases hprocess : i.command.process c input ctx with
    | error e => simp [hprocess, bind, Except.bind] at h
    | ok result =>
      simp only [hprocess, bind, Except.bind, pure, Except.pure, Except.ok.injEq] at h
      exact .inr (.inl ⟨hstate, result, rfl, h.symm⟩)
  · rename_i hstate
    cases hprocess : i.skipped.process c input ctx with
    | error e => simp [hprocess, bind, Except.bind] at h
    | ok result =>
      simp only [hprocess, bind, Except.bind, pure, Except.pure, Except.ok.injEq] at h
      exact .inr (.inr ⟨hstate, result, rfl, h.symm⟩)

/-- Every character that is interpreted leaves less to do. -/
theorem work_step_lt {i : Interpreter} {c : Char} {input rest : Input} {ctx : Context σ κ}
    {next : Delivery σ κ} (hread : input.read = (some c, rest))
    (h : i.step c rest ctx = .ok next) :
    work next.interpreter next.input < i.work input := by
  have hlength := Input.length_read hread
  have hslot := Input.slot_of_read hread
  -- the character that interrupted a string is there again, but then the string has ended
  have hstring : i.state.isString = true →
      (next.input.length ≤ rest.length ∨
        next.input.length = rest.length + 1 ∧ next.interpreter.state = .escape) →
      work next.interpreter next.input < i.work input := by
    intro hstate hless
    simp only [work, hstate, if_true]
    rcases hless with hless | ⟨hless, hescape⟩
    · split <;> omega
    · simp only [hescape, Interpreter.State.isString, Bool.false_eq_true, if_false]
      omega
  rcases step_cases h with ⟨-, hinput, -⟩ | ⟨hstate, result, hprocess, rfl⟩ |
    ⟨hstate, result, hprocess, rfl⟩
  · simp only [work, hinput]
    split <;> split <;> omega
  · exact hstring (by rw [hstate]; rfl) (CommandString.length_process hslot hprocess)
  · exact hstring (by rw [hstate]; rfl) (SkippedString.length_process hslot hprocess)

def run (i : Interpreter) (input : Input) (ctx : Context σ κ) :
    Except SlotOccupied (Delivery σ κ) :=
  match _hread : input.read with
  | (none, input) => .ok ⟨i, input, ctx⟩
  | (some c, rest) =>
    match _hnext : i.step c rest ctx with
    | .error e => .error e
    | .ok next => next.interpreter.run next.input next.context
termination_by i.work input
decreasing_by exact work_step_lt ‹_› ‹_›

theorem run_of_read_none {i : Interpreter} {input rest : Input} (h : input.read = (none, rest))
    (ctx : Context σ κ) : i.run input ctx = .ok ⟨i, rest, ctx⟩ := by
  rw [run]
  split
  · rename_i hread
    rw [h] at hread
    cases hread
    rfl
  · rename_i hread
    rw [h] at hread
    cases hread

theorem run_of_read_some {i : Interpreter} {input rest : Input} {c : Char} {ctx : Context σ κ}
    {next : Delivery σ κ} (h : input.read = (some c, rest)) (hnext : i.step c rest ctx = .ok next) :
    i.run input ctx = next.interpreter.run next.input next.context := by
  rw [run]
  split
  · rename_i hread
    rw [h] at hread
    cases hread
  · rename_i hread
    rw [h] at hread
    cases hread
    split
    · rename_i hstep
      rw [hnext] at hstep
      cases hstep
    · rename_i hstep
      rw [hnext] at hstep
      cases hstep
      rfl

/-- After a read, interpreting a character does not fail: there is room to push one back. -/
theorem step_ok (i : Interpreter) (c : Char) {input : Input} (h : input.slot = none)
    (ctx : Context σ κ) : ∃ next, i.step c input ctx = .ok next := by
  unfold step
  split
  · exact ⟨_, rfl⟩
  · exact ⟨_, rfl⟩
  · exact ⟨_, rfl⟩
  · exact ⟨_, rfl⟩
  · obtain ⟨result, hresult⟩ := i.command.process_ok c h ctx
    exact ⟨_, by rw [hresult]; rfl⟩
  · obtain ⟨result, hresult⟩ := i.skipped.process_ok c h ctx
    exact ⟨_, by rw [hresult]; rfl⟩

/-- Interpreting everything in the input does not fail. -/
theorem run_ok (i : Interpreter) (input : Input) (ctx : Context σ κ) :
    ∃ next, i.run input ctx = .ok next := by
  match hread : input.read with
  | (none, rest) => exact ⟨_, run_of_read_none hread ctx⟩
  | (some c, rest) =>
    obtain ⟨next, hnext⟩ := i.step_ok c (Input.slot_of_read hread) ctx
    obtain ⟨last, hlast⟩ := run_ok next.interpreter next.input next.context
    exact ⟨last, (run_of_read_some hread hnext).trans hlast⟩
termination_by i.work input
decreasing_by exact work_step_lt ‹_› ‹_›

/-- The value of a computation that does not fail. -/
def valueOf {ε α : Type} (x : Except ε α) (h : ∃ a, x = .ok a) : α :=
  match x, h with
  | .ok a, _ => a
  | .error _, h => absurd h (by simp)

theorem valueOf_eq {ε α : Type} {x : Except ε α} {a : α} (h : x = .ok a) (hx : ∃ b, x = .ok b) :
    valueOf x hx = a := by
  subst h
  rfl

def runAll (i : Interpreter) (input : Input) (ctx : Context σ κ) : Delivery σ κ :=
  valueOf (i.run input ctx) (i.run_ok input ctx)

end Interpreter

end ControlStream
