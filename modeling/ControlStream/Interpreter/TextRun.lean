import ControlStream.Interpreter.Context

/-!
# Runs of text

Printable characters are collected and written to the screen in one go. A run is written as soon
as the next character would end it, or there is no next character yet, so that the screen never
lags behind what was delivered. In insert mode every character is written by itself.

## Main definitions

* `TextRun`: the characters that wait to be written.
* `TextRun.process`: take a character, knowing the one after it.
-/

namespace ControlStream

/-- The characters of a run that were not written yet. -/
structure TextRun where
  /-- The characters, sent through the character sets. -/
  pending : String
  deriving DecidableEq, Inhabited, Repr

namespace TextRun

variable {σ κ : Type} [Screen σ]

def empty : TextRun := ⟨""⟩

def endsBefore : Option Char → Bool
  | none => true
  | some c => endsText c

/-- Write the waiting characters, if there are any, to the screen. -/
def flush (run : TextRun) (ctx : Context σ κ) : TextRun × Context σ κ :=
  if run.pending.isEmpty then (run, ctx)
  else
    (empty,
      { ctx with
        screen := Screen.write ctx.screen run.pending
        store := ctx.store.set .written run.pending })

def add (run : TextRun) (c : Char) (ctx : Context σ κ) : TextRun × Context σ κ :=
  let (shown, store) := ctx.store.update .graphicSet (·.translate c)
  (⟨run.pending.push shown⟩, { ctx with store })

/-- Take a character of a run. `next` is the character after it, if it has arrived. NUL is dropped,
but a run that waits is written if NUL was all that kept it from its end. -/
def process (run : TextRun) (c : Char) (next : Option Char) (ctx : Context σ κ) :
    Step TextRun σ κ :=
  if c = ControlChar.nul then
    if endsBefore next then
      let (run, ctx) := run.flush ctx
      ⟨.ready, run, ctx⟩
    else ⟨.ready, run, ctx⟩
  else
    let (run, ctx) := run.add c ctx
    if endsBefore next || ctx.store.getD .insertMode false then
      let (run, ctx) := run.flush ctx
      ⟨.ready, run, ctx⟩
    else ⟨.text, run, ctx⟩

end TextRun

end ControlStream
