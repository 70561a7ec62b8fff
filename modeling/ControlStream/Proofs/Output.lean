import ControlStream.Proofs.Interchange

/-!
# Output

What leaves a terminal while text is delivered: the calls made to its screen, the texts handed to
its clipboard and the replies. None of it depends on what the screen and the clipboard make of it or
on what left the terminal before, so it is found with a screen and a clipboard that only remember.

## Main definitions

* `Copies`: a clipboard that remembers the texts it was given.
* `Output`: calls, copied texts and replies.
* `Terminal.output`: the output of a terminal while pieces of text are delivered.
* `Host.Receives`: a host that comes of another one by some output.

## Main statements

* `Terminal.AtRest.receives_output`: the output is all that happens to screen, clipboard and
  replies.
-/

namespace ControlStream

/-- A clipboard that remembers the texts it was given, in order. -/
structure Copies where
  texts : List String
  deriving DecidableEq, Inhabited, Repr

instance : Clipboard Copies where
  setText c text := (⟨c.texts ++ [text]⟩, .ok ())

def copyAll {κ : Type} [Clipboard κ] (texts : List String) (clipboard : κ) : κ :=
  texts.foldl (fun c text => (Clipboard.setText c text).1) clipboard

theorem copyAll_append {κ : Type} [Clipboard κ] (texts more : List String) (clipboard : κ) :
    copyAll (texts ++ more) clipboard = copyAll more (copyAll texts clipboard) :=
  List.foldl_append

/-- What was copied is remembered. -/
theorem texts_copyAll (texts : List String) (c : Copies) :
    (copyAll texts c).texts = c.texts ++ texts := by
  induction texts generalizing c with
  | nil => exact (List.append_nil _).symm
  | cons text texts ih =>
    refine (ih (Clipboard.setText c text).1).trans ?_
    exact List.append_assoc _ _ _

structure Output where
  calls : List Call
  copies : List String
  replies : List String
  deriving DecidableEq, Repr

def Host.output (a : Host Transcript Copies) : Output :=
  ⟨a.screen.calls.toList, a.clipboard.texts, a.replies.pending.toList⟩

/-- Screen, clipboard and replies of `b` are what comes of those of `a` by some output. -/
structure Host.Receives {σ κ : Type} [Screen σ] [Clipboard κ] (a : Host σ κ) (out : Output)
    (b : Host σ κ) : Prop where
  screen : b.screen = replay out.calls a.screen
  clipboard : b.clipboard = copyAll out.copies a.clipboard
  replies : b.replies.pending.toList = a.replies.pending.toList ++ out.replies

/-! ### A host that remembers beside another one -/

theorem Transcript.replay_toList_on {σ : Type} [Screen σ] {screen s : σ} {t : Transcript}
    {call : Call} (_ : call.Permitted) (h : s = replay t.calls.toList screen) :
    call.on s = replay (call.on t).calls.toList screen := by
  rw [toList_on, replay_append, ← h]
  rfl

theorem Transcript.toList_replay (t : Transcript) (calls : List Call) :
    (replay calls t).calls.toList = t.calls.toList ++ calls := by
  induction calls generalizing t with
  | nil => exact (List.append_nil _).symm
  | cons call calls ih =>
    have hrest := ih (call.on t)
    rwa [toList_on, List.append_assoc] at hrest

theorem Settings.answered_append {settings : Settings} {old : List String} {r q : Replies}
    (answer : String) (h : q.pending.toList = old ++ r.pending.toList) :
    (settings.answered q answer).pending.toList =
      old ++ (settings.answered r answer).pending.toList := by
  unfold answered
  split
  · rw [Replies.pending_emit, Replies.pending_emit, h, List.append_assoc]
  · exact h

theorem Settings.copied_copyAll {κ : Type} [Clipboard κ] {settings : Settings} {clipboard d : κ}
    {c : Copies} (text : String) (h : d = copyAll c.texts clipboard) :
    settings.copied d text = copyAll (settings.copied c text).texts clipboard := by
  unfold copied
  split
  · rw [h]
    exact (copyAll_append c.texts [text] clipboard).symm
  · exact h

/-- What a host that remembers has in common with the one it stands for. -/
def Likeness.recorded {σ κ : Type} [Screen σ] [Clipboard κ] (a : Host σ κ) :
    Likeness Transcript σ Copies κ where
  ignored _ := False
  screen t s := s = replay t.calls.toList a.screen
  clipboard c d := d = copyAll c.texts a.clipboard
  replies r q := q.pending.toList = a.replies.pending.toList ++ r.pending.toList
  left := a.settings
  right := a.settings
  graphicSet_not_ignored := not_false
  insertMode_not_ignored := not_false
  commandLimit_eq := rfl
  clipboardLimit_eq := rfl
  screen_on := Transcript.replay_toList_on
  replies_answered := Settings.answered_append
  clipboard_copied := Settings.copied_copyAll

namespace Terminal

variable {σ κ : Type}

/-- The same terminal with a screen and a clipboard that remember, and no replies. -/
def recorded (t : Terminal σ κ) : Terminal Transcript Copies where
  input := t.input
  interpreter := t.interpreter
  host :=
    { store := t.store
      screen := ⟨#[]⟩
      clipboard := ⟨[]⟩
      replies := .empty
      settings := t.host.settings }

def output (t : Terminal σ κ) (pieces : List (List Char)) : Output :=
  (t.recorded.writeAll pieces).host.output

theorem AtRest.recorded {t : Terminal σ κ} (h : t.AtRest) : t.recorded.AtRest :=
  ⟨h.input, h.textDone, h.tidy⟩

variable [Screen σ] [Clipboard κ] {t : Terminal σ κ}

/-- A terminal is like the one that remembers. -/
theorem AtRest.recorded_terminals (h : t.AtRest) :
    (Likeness.recorded t.host).Terminals t.recorded t where
  left := h.recorded
  right := h
  interpreter := rfl
  host := ⟨.refl _ _, rfl, rfl, (List.append_nil _).symm, rfl, rfl⟩

/-- The output is all that happens to screen, clipboard and replies. -/
theorem AtRest.receives_output (h : t.AtRest) (pieces : List (List Char)) :
    t.host.Receives (t.output pieces) (t.writeAll pieces).host := by
  have hhost := (h.recorded_terminals.writeAll pieces).host
  exact ⟨hhost.screen, hhost.clipboard, hhost.replies⟩

/-- Apart from the output, remembering makes no difference. -/
theorem AtRest.writeAll_recorded (h : t.AtRest) (pieces : List (List Char)) :
    (t.recorded.writeAll pieces).interpreter = (t.writeAll pieces).interpreter ∧
      (t.recorded.writeAll pieces).store = (t.writeAll pieces).store := by
  have hwritten := h.recorded_terminals.writeAll pieces
  exact ⟨hwritten.interpreter, hwritten.host.store.eq⟩

end Terminal

end ControlStream
