import ControlStream.Page
import ControlStream.Text.ControlChar

/-!
# Calls

A screen is only ever changed by the calls made to it, so what an interpreter does to a screen is
a list of calls. Two lists come to the same if they differ only in how text is divided among the
calls that follow each other.

## Main definitions

* `replay`: make calls to a screen, one after the other.
* `joinWrites`: join the texts of calls that follow each other.
* `Call.Permitted`: the calls an interpreter may make.
* `Page.layout`: what a page shows, apart from the record of the texts written.

## Main statements

* `joinWrites_joinWrites_append`: joining early makes no difference.
* `layout_replay_joinWrites`: a page does not show how text was divided.
-/

namespace ControlStream

/-! ### Making calls -/

def Call.on {σ : Type} [Screen σ] (screen : σ) : Call → σ
  | .write text => Screen.write screen text
  | .control c => Screen.control screen c
  | .insert enabled => Screen.setInsertMode screen enabled

def replay {σ : Type} [Screen σ] (calls : List Call) (screen : σ) : σ := calls.foldl Call.on screen

section Replay

variable {σ : Type} [Screen σ]

theorem replay_append (calls more : List Call) (screen : σ) :
    replay (calls ++ more) screen = replay more (replay calls screen) := List.foldl_append

end Replay

/-- A call to a transcript is added to it. -/
theorem Transcript.toList_on (t : Transcript) (call : Call) :
    (call.on t).calls.toList = t.calls.toList ++ [call] := by
  cases call <;> simp [Call.on, Screen.write, Screen.control, Screen.setInsertMode, Transcript.add]

/-- The calls an interpreter may make: text is not empty and has no control character in it, and
of the control characters only those that move the cursor or ring the bell are passed on. -/
def Call.Permitted : Call → Prop
  | .write text => text ≠ "" ∧ ∀ c ∈ text.toList, isControl c = false
  | .control c => c ∈ [ControlChar.cr, ControlChar.lf, ControlChar.vt, ControlChar.ff,
      ControlChar.bs, ControlChar.tab, ControlChar.bel]
  | .insert _ => True

/-! ### Joining texts -/

/-- Put a call in front of others. A text is joined to a text that comes first. -/
def Call.join : Call → List Call → List Call
  | .write text, .write more :: calls => .write (text ++ more) :: calls
  | call, calls => call :: calls

def joinWrites (calls : List Call) : List Call := calls.foldr Call.join []

/-- Joining two texts to what follows is joining their concatenation to it. -/
theorem Call.join_join (text more : String) (calls : List Call) :
    (Call.write text).join ((Call.write more).join calls) =
      (Call.write (text ++ more)).join calls := by
  rcases calls with _ | ⟨_ | _ | _, calls⟩ <;> simp [join, String.append_assoc]

@[simp] theorem joinWrites_cons (call : Call) (calls : List Call) :
    joinWrites (call :: calls) = call.join (joinWrites calls) := rfl

/-- A call joined in front of others is joined in front of what these come to. -/
theorem joinWrites_join_append (call : Call) (calls more : List Call) :
    joinWrites (call.join calls ++ more) = call.join (joinWrites (calls ++ more)) := by
  rcases call with text | c | enabled
  · rcases calls with _ | ⟨next | c | enabled, calls⟩
    · rfl
    · exact (Call.join_join text next _).symm
    · rfl
    · rfl
  · rfl
  · rfl

/-- Joining early makes no difference. -/
theorem joinWrites_joinWrites_append (calls more : List Call) :
    joinWrites (joinWrites calls ++ more) = joinWrites (calls ++ more) := by
  induction calls with
  | nil => rfl
  | cons call calls ih =>
    rw [joinWrites_cons, joinWrites_join_append, ih]
    rfl

/-- Lists of calls that come to the same still do when the same calls follow. -/
theorem joinWrites_append_congr {calls others : List Call}
    (h : joinWrites calls = joinWrites others) (more : List Call) :
    joinWrites (calls ++ more) = joinWrites (others ++ more) := by
  rw [← joinWrites_joinWrites_append, h, joinWrites_joinWrites_append]

theorem Transcript.joinWrites_on_congr {t u : Transcript} {call : Call} (_ : call.Permitted)
    (h : joinWrites t.calls.toList = joinWrites u.calls.toList) :
    joinWrites (call.on t).calls.toList = joinWrites (call.on u).calls.toList := by
  rw [toList_on, toList_on, joinWrites_append_congr h]

/-- What is read off calls one by one does not depend on how text was divided, if it does not for a
single text. -/
theorem flatMap_joinWrites {α : Type} {f : Call → List α}
    (hf : ∀ text more, f (.write (text ++ more)) = f (.write text) ++ f (.write more))
    (calls : List Call) : (joinWrites calls).flatMap f = calls.flatMap f := by
  have hjoin : ∀ (call : Call) (calls : List Call),
      (call.join calls).flatMap f = f call ++ calls.flatMap f := by
    rintro (text | c | enabled) calls
    · rcases calls with _ | ⟨more | c | enabled, calls⟩ <;> simp [Call.join, hf]
    · rfl
    · rfl
  induction calls with
  | nil => rfl
  | cons call calls ih => rw [joinWrites_cons, hjoin, ih, List.flatMap_cons]

/-- Two texts after other calls come to the same as their concatenation. -/
theorem joinWrites_append_writes (calls : List Call) (text more : String) :
    joinWrites (calls ++ [.write text] ++ [.write more]) =
      joinWrites (calls ++ [.write (text ++ more)]) := by
  induction calls with
  | nil => rfl
  | cons call calls ih =>
    simp only [List.cons_append, joinWrites_cons] at ih ⊢
    rw [ih]

/-! ### What a page shows -/

namespace Page

/-- A page without the record of the texts written. -/
def layout (p : Page) : Page := { p with writes := #[] }

@[simp] theorem width_layout (p : Page) : p.layout.width = p.width := rfl

@[simp] theorem row_layout (p : Page) : p.layout.row = p.row := rfl

@[simp] theorem column_layout (p : Page) : p.layout.column = p.column := rfl

@[simp] theorem lines_layout (p : Page) : p.layout.lines = p.lines := rfl

@[simp] theorem layout_recordText (p : Page) (s : String) : (p.recordText s).layout = p.layout := by
  unfold recordText
  split <;> rfl

/-- Laying out a character does not look at the record. -/
theorem layout_put (p : Page) (c : Char) : (p.put c).layout = p.layout.put c := by
  have hwrap : ∀ n, (p.wrap n).layout = p.layout.wrap n := by
    intro n
    unfold wrap
    rw [width_layout, column_layout]
    by_cases hfull : p.column + n > p.width
    · rw [if_pos hfull, if_pos hfull]
      rfl
    · rw [if_neg hfull, if_neg hfull]
  unfold put
  rw [width_layout]
  split
  · rfl
  · rw [← hwrap]
    rfl

theorem layout_putAll (p : Page) (s : List Char) : (p.putAll s).layout = p.layout.putAll s := by
  induction s generalizing p with
  | nil => rfl
  | cons c s ih => exact (ih (p.put c)).trans (by rw [layout_put]; rfl)

theorem layout_write (p : Page) (s : String) : (p.write s).layout = p.layout.putAll s.toList := by
  rw [write, layout_recordText, layout_putAll]

/-- A page shows a text no matter how it was divided. -/
theorem layout_write_write (p : Page) (s t : String) :
    ((p.write s).write t).layout = (p.write (s ++ t)).layout := by
  rw [layout_write, layout_write, layout_write, String.toList_append, putAll, putAll, putAll,
    List.foldl_append]

theorem layout_control (p : Page) (c : Char) : (p.control c).layout = p.layout.control c := by
  unfold control
  repeat' split
  all_goals rfl

/-- What a page shows after a call does not depend on the record. -/
theorem layout_on (p : Page) (call : Call) : (call.on p).layout = (call.on p.layout).layout := by
  cases call with
  | write text => exact (layout_write p text).trans (layout_write p.layout text).symm
  | control c => exact (layout_control p c).trans (layout_control p.layout c).symm
  | insert enabled => rfl

theorem layout_replay_congr {p q : Page} (h : p.layout = q.layout) (calls : List Call) :
    (replay calls p).layout = (replay calls q).layout := by
  induction calls generalizing p q with
  | nil => exact h
  | cons call calls ih =>
    refine ih ?_
    rw [layout_on, h, ← layout_on]

theorem layout_replay_join (call : Call) (calls : List Call) (p : Page) :
    (replay (call.join calls) p).layout = (replay calls (call.on p)).layout := by
  rcases call with text | c | enabled
  · rcases calls with _ | ⟨next | c | enabled, calls⟩
    · rfl
    · exact layout_replay_congr (layout_write_write p text next).symm calls
    · rfl
    · rfl
  · rfl
  · rfl

/-- A page does not show how text was divided. -/
theorem layout_replay_joinWrites (calls : List Call) (p : Page) :
    (replay (joinWrites calls) p).layout = (replay calls p).layout := by
  induction calls generalizing p with
  | nil => rfl
  | cons call calls ih =>
    rw [joinWrites_cons, layout_replay_join, ih]
    rfl

end Page

end ControlStream
