import ControlStream.Page
import ControlStream.Interpreter

/-!
# Terminals

A terminal is an interpreter together with what it works on. Text is delivered in pieces of any
size; a sequence that is cut off at the end of a piece goes on in the next.

## Main definitions

* `Terminal`: the interpreter, its input and its host; `Terminal.onScreen` makes one.
* `Terminal.deliver`: interpret a piece of text; `Terminal.write` leaves out the events.
* `Terminal.reset`: drop what is in progress.
-/

namespace ControlStream

/-- An interpreter and what it works on. -/
structure Terminal (σ κ : Type) where
  input : Input
  interpreter : Interpreter
  host : Host σ κ

namespace Terminal

variable {σ κ : Type}

/-- A terminal to which nothing was delivered. -/
def onScreen (screen : σ) (clipboard : κ) (settings : Settings) : Terminal σ κ where
  input := .empty
  interpreter := .initial
  host :=
    { store := .ofPalette settings.colors.toPalette
      screen
      clipboard
      replies := .empty
      settings }

/-- A terminal on a page with a clipboard in memory. -/
def onPage (page : Page) (settings : Settings) : Terminal Page MemoryClipboard :=
  onScreen page .empty settings

def deliver [Screen σ] [Clipboard κ] (t : Terminal σ κ) (s : List Char) :
    Terminal σ κ × Array Event :=
  let delivery := t.interpreter.runAll (t.input.feed s) { t.host with events := #[] }
  (⟨delivery.input, delivery.interpreter, delivery.context.toHost⟩, delivery.context.events)

def write [Screen σ] [Clipboard κ] (t : Terminal σ κ) (s : List Char) : Terminal σ κ :=
  (t.deliver s).1

def writeAll [Screen σ] [Clipboard κ] (t : Terminal σ κ) (pieces : List (List Char)) :
    Terminal σ κ :=
  pieces.foldl write t

theorem writeAll_append [Screen σ] [Clipboard κ] (t : Terminal σ κ)
    (pieces more : List (List Char)) :
    t.writeAll (pieces ++ more) = (t.writeAll pieces).writeAll more := List.foldl_append

/-- Drop what is in progress. What the terminal works on is left as it is. -/
def reset (t : Terminal σ κ) : Terminal σ κ :=
  { t with input := t.input.clear, interpreter := t.interpreter.reset }

def state (t : Terminal σ κ) : Interpreter.State := t.interpreter.state

/-- Titles, modes, character sets and colors. -/
def store (t : Terminal σ κ) : Store := t.host.store

def screen (t : Terminal σ κ) : σ := t.host.screen

def modifyStore (t : Terminal σ κ) (f : Store → Store) : Terminal σ κ :=
  { t with host.store := f t.host.store }

def modifyScreen (t : Terminal σ κ) (f : σ → σ) : Terminal σ κ :=
  { t with host.screen := f t.host.screen }

def takeReplies (t : Terminal σ κ) : Array String × Terminal σ κ :=
  let (taken, replies) := t.host.replies.take
  (taken, { t with host.replies := replies })

def title? (t : Terminal σ κ) : Option String := t.store.get? .windowTitle

def iconTitle? (t : Terminal σ κ) : Option String := t.store.get? .iconTitle

def workdir? (t : Terminal σ κ) : Option String := t.store.get? .workdir

def insertMode (t : Terminal σ κ) : Bool := t.store.getD .insertMode false

end Terminal

end ControlStream
