import ControlStream.Proofs.GraphicSteps
import ControlStream.Proofs.InsertMode
import ControlStream.Proofs.Packing

/-!
# The text that a stream shows

An interpreter reads a stream as `Reading` does, and takes its steps. So what is shown of a stream
is known from the stream alone: which characters are printed, and which character sets they are sent
through. Neither the screen nor the pieces in which the stream comes make a difference.

## Main definitions

* `Interpreter.Reads`: what an interpreter has in progress is what is being read.
* `Progress.Draws`: what has come of some steps.
* `Terminal.textShown`: the text written to the screen of a terminal.

## Main statements

* `Progress.draws_tick`: what a character does to the character sets, and what it shows.
* `Terminal.AtRest.textShown_eq`: what a stream shows, in whatever pieces.
-/

namespace ControlStream

open ControlChar
open GraphicStep (shift? onAll shownAll)

/-! ### What an interpreter reads -/

/-- Where something is being read, text is not. -/
theorem Interpreter.Frames.state_ne {limit : Nat} {i : Interpreter} {f : Framing}
    (h : i.Frames limit f) (hf : f ≠ .ground) : i.state ≠ .ready ∧ i.state ≠ .text := by
  cases f with
  | ground => exact absurd rfl hf
  | escape bare =>
    obtain ⟨hstate, -⟩ := h
    simp [hstate]
  | control =>
    have hstate : i.state = .control := h
    simp [hstate]
  | string command? escaped =>
    cases command? <;>
    · obtain ⟨hstate, -⟩ := h
      simp [hstate]

/-- What an interpreter has in progress is what is being read. -/
structure Interpreter.Reads (limit : Nat) (i : Interpreter) (r : Reading) : Prop where
  frames : i.Frames limit r.framing
  escape : i.escape = r.escape

namespace Progress

variable {σ κ : Type} [Screen σ] [Clipboard κ] {x : Progress σ κ} {r : Reading}

omit [Clipboard κ] in
theorem escape_begin (x : Progress σ κ) (c : Char) :
    (x.begin c).interpreter.escape = x.interpreter.escape := by
  cases hc : Opening.ofChar c with
  | text =>
    rw [begin_of_text _ hc]
    simp only [addText]
    split <;> rfl
  | escape | control | command | skipped | nul | del | execute | ignored =>
    simp [begin, hc, withState]

omit [Clipboard κ] in
theorem escape_settleBefore (x : Progress σ κ) (next : Option Char) :
    (x.settleBefore next).interpreter.escape = x.interpreter.escape := by
  unfold settleBefore
  split <;> rfl

/-- An interpreter reads on as its stream is read. -/
theorem reads_tick (htidy : x.interpreter.Tidy x.context.settings.payloadLimit)
    (h : x.interpreter.Reads x.context.settings.payloadLimit r) (c : Char) :
    (x.tick c).interpreter.Reads x.context.settings.payloadLimit (r.next c) := by
  refine ⟨frames_tick htidy h.frames c, ?_⟩
  obtain ⟨framing, escape⟩ := r
  obtain ⟨hframes, rfl⟩ := h
  cases framing with
  | ground =>
    have htick : x.tick c = (x.settleBefore (some c)).begin c := by
      rcases hframes with hstate | hstate <;> rw [tick, hstate]
    rw [htick, escape_begin, escape_settleBefore]
    exact (htidy.clear hframes).escape
  | escape bare =>
    obtain ⟨hstate, -⟩ := hframes
    rw [tick, hstate]
    exact x.interpreter.escape.part_process c x.context
  | control =>
    have hstate : x.interpreter.state = .control := hframes
    rw [tick, hstate]
    exact htidy.escape.resolve_left (by simp [hstate])
  | string command? escaped =>
    have hreads := readsString_of_frames hframes
    have hclear := clear_endString htidy hreads
    cases escaped with
    | true =>
      have hdone := htidy.keepsText.textDone hreads.ne_ready hreads.ne_text
      rw [(hreads.tick_of_escaped hdone c).interpreter]
      by_cases hc : c = '\\'
      · subst hc
        exact hclear.escape
      · rw [if_neg hc]
        refine (x.endString.interpreter.escape.part_process c x.endString.context).trans ?_
        rw [hclear.escape]
        rfl
    | false =>
      -- The string goes on or has come to its end, so no escape sequence is being read.
      have hnext := frames_tick htidy hframes c
      have hstate : (x.tick c).interpreter.state ≠ .escape := by
        intro hescape
        revert hnext
        simp only [Framing.next]
        split_ifs <;> cases command? <;> simp [Interpreter.Frames, hescape]
      exact (tidy_tick htidy c).escape.resolve_left hstate

/-- So an interpreter reads a whole stream. -/
theorem reads_after {settings : Settings}
    (hsettings : (Likeness.ofSettings σ κ settings).Alike x x)
    (htidy : x.interpreter.Tidy settings.payloadLimit)
    (h : x.interpreter.Reads settings.payloadLimit r) (s : List Char) :
    (x.after s).interpreter.Reads settings.payloadLimit (r.after s) := by
  induction s generalizing x r with
  | nil => exact h
  | cons c s ih =>
    have hlimit : x.context.settings = settings := hsettings.host.left
    have hnext := reads_tick (hlimit ▸ htidy) (hlimit ▸ h) c
    rw [hlimit] at hnext
    exact ih (hsettings.tick c) (tidy_after hsettings htidy [c]) hnext

/-! ### What a character does to the character sets -/

omit [Clipboard κ] in
theorem graphicSet_settle (x : Progress σ κ) :
    x.settle.context.toHost.graphicSet = x.context.toHost.graphicSet := by
  simp only [settle, TextRun.flush]
  split
  · rfl
  · exact Store.getD_set_of_ne _ _ (by decide) _

theorem graphicSet_endString {command? : Option (List Char)} {escaped : Bool}
    (h : x.interpreter.Frames x.context.settings.payloadLimit (.string command? escaped)) :
    x.endString.context.toHost.graphicSet = x.context.toHost.graphicSet := by
  rw [toHost_endString h]
  cases command? with
  | none => rfl
  | some payload => exact x.context.toHost.graphicSet_command payload

/-- Inside a sequence or a string, the character sets take the step of the character. -/
theorem graphicSet_tick (htidy : x.interpreter.Tidy x.context.settings.payloadLimit)
    (h : x.interpreter.Reads x.context.settings.payloadLimit r) (hground : r.framing ≠ .ground)
    (c : Char) :
    (x.tick c).context.toHost.graphicSet =
      onAll (r.step? c).toList x.context.toHost.graphicSet := by
  obtain ⟨framing, escape⟩ := r
  obtain ⟨hframes, rfl⟩ := h
  cases framing with
  | ground => exact absurd rfl hground
  | escape bare =>
    obtain ⟨hstate, -⟩ := hframes
    rw [tick, hstate]
    exact x.context.graphicSet_escape x.interpreter.escape c
  | control =>
    have hstate : x.interpreter.state = .control := hframes
    rw [tick, hstate]
    exact x.context.graphicSet_control x.interpreter.control c
  | string command? escaped =>
    have hreads := readsString_of_frames hframes
    have hend := graphicSet_endString hframes
    cases escaped with
    | true =>
      have hdone := htidy.keepsText.textDone hreads.ne_ready hreads.ne_text
      rw [(hreads.tick_of_escaped hdone c).host]
      by_cases hc : c = '\\'
      · subst hc
        exact hend
      · rw [if_neg hc]
        refine (x.endString.context.graphicSet_escape x.endString.interpreter.escape c).trans ?_
        rw [(clear_endString htidy hreads).escape, hend]
        rfl
    | false =>
      by_cases hc : c = bel ∨ c = st
      · rw [(hreads.tick_terminator hc).host]
        exact hend
      · rw [(tick_of_open hframes hc).2]
        rfl

end Progress

namespace Progress

variable {κ : Type} {x y z : Progress Transcript κ}

/-- The text that was written, and then the text that waits to be written. -/
def text (x : Progress Transcript κ) : List Char :=
  x.context.screen.calls.toList.flatMap Call.text ++ x.interpreter.textRun.pending.toList

/-- From `x` on steps were taken, and `y` is what has come of it: the character sets are those after
the steps, and text was added that the steps show. -/
structure Draws (x : Progress Transcript κ) (steps : List GraphicStep)
    (y : Progress Transcript κ) : Prop where
  graphicSet : y.context.toHost.graphicSet = onAll steps x.context.toHost.graphicSet
  text : y.text = x.text ++ shownAll steps x.context.toHost.graphicSet

theorem Draws.trans {steps more : List GraphicStep} (h : x.Draws steps y) (h' : y.Draws more z) :
    x.Draws (steps ++ more) z where
  graphicSet := by rw [h'.graphicSet, h.graphicSet, GraphicStep.onAll_append]
  text := by rw [h'.text, h.text, h.graphicSet, GraphicStep.shownAll_append, List.append_assoc]

/-- Writing the text that waits neither shifts nor shows anything else. -/
theorem draws_settle (x : Progress Transcript κ) : x.Draws [] x.settle where
  graphicSet := x.graphicSet_settle
  text := by
    refine Eq.trans ?_ (List.append_nil _).symm
    by_cases hempty : x.interpreter.textRun = .empty
    · simp only [Progress.text, settle, hempty, TextRun.flush_empty]
    · have hcalls := x.context.screen.toList_on (.write x.interpreter.textRun.pending)
      simp only [Progress.text, settle, TextRun.flush_of_ne hempty]
      refine (congrArg (fun calls : List Call => calls.flatMap Call.text ++ _) hcalls).trans ?_
      simp [Call.text, TextRun.empty]

theorem draws_settleBefore (x : Progress Transcript κ) (next : Option Char) :
    x.Draws [] (x.settleBefore next) := by
  unfold settleBefore
  split
  · exact x.draws_settle
  · exact ⟨rfl, (List.append_nil _).symm⟩

/-- What writes nothing and leaves the text that waits shows nothing. -/
theorem draws_of_withoutWrites {step? : Option GraphicStep}
    (hrun : y.interpreter.textRun = x.interpreter.textRun)
    (hwrites : x.context.WithoutWrites y.context)
    (hset : y.context.toHost.graphicSet = onAll step?.toList x.context.toHost.graphicSet)
    (hprint : ∀ c, step? ≠ some (.print c)) : x.Draws step?.toList y := by
  refine ⟨hset, ?_⟩
  obtain ⟨calls, hcalls, hscreen⟩ := hwrites
  have hnone : calls.flatMap Call.text = [] := by
    rw [List.flatMap_eq_nil_iff]
    rintro (text | c | enabled) hcall
    · exact absurd hcall (hcalls text)
    · rfl
    · rfl
  rw [GraphicStep.shownAll_of_ne_print hprint, List.append_nil, Progress.text, hrun, hscreen,
    Transcript.toList_replay, List.flatMap_append, hnone, List.append_nil]
  rfl

/-- A printable character is sent through the character set in use. -/
theorem draws_addText (x : Progress Transcript κ) (c : Char) :
    x.Draws [.print c] (x.addText c) := by
  have hwaits : x.Draws [.print c]
      ⟨{ x.interpreter with
          state := .text
          textRun := (x.interpreter.textRun.add c x.context).1 },
        (x.interpreter.textRun.add c x.context).2⟩ := by
    constructor
    · exact Store.getD_set_self _ _ _ _
    · simp only [Progress.text, TextRun.add, String.toList_push, ← List.append_assoc]
      rfl
  simp only [addText]
  split
  · exact hwaits.trans (draws_settle _)
  · exact hwaits

/-- Where nothing is being read, a character is printed, or it shifts, or neither. -/
theorem draws_begin (x : Progress Transcript κ) (c : Char) :
    x.Draws (Reading.ground.step? c).toList (x.begin c) := by
  by_cases htext : Opening.ofChar c = .text
  · have hstep : Reading.ground.step? c = some (.print c) := if_pos htext
    rw [hstep, begin_of_text _ htext]
    exact x.draws_addText c
  · have hstep : Reading.ground.step? c = shift? c := if_neg htext
    rw [hstep]
    by_cases hexecute : Opening.ofChar c = .execute
    · have hbegin : x.begin c =
          ⟨{ x.interpreter with state := .ready }, x.context.executeControl c⟩ := by
        simp only [begin, hexecute]
      rw [hbegin]
      exact draws_of_withoutWrites rfl (x.context.withoutWrites_executeControl c)
        (x.context.graphicSet_executeControl c) (GraphicStep.shift?_ne_print c)
    · have hnone : shift? c = none := by
        unfold shift?
        split_ifs with hso hsi
        · exact absurd (by rw [hso]; rfl) hexecute
        · exact absurd (by rw [hsi]; rfl) hexecute
        · rfl
      have hsame : (x.begin c).context.toHost = x.context.toHost ∧
          (x.begin c).interpreter.textRun = x.interpreter.textRun := by
        cases hc : Opening.ofChar c with
        | text => exact absurd hc htext
        | execute => exact absurd hc hexecute
        | escape | control | command | skipped | nul | del | ignored =>
          simp [begin, hc, withState]
      rw [hnone]
      exact draws_of_withoutWrites hsame.2 (.of_screen_eq (congrArg Host.screen hsame.1))
        (congrArg Host.graphicSet hsame.1) (by simp)

variable [Clipboard κ] {r : Reading}

/-- Every character takes its step, and shows what the step shows. -/
theorem draws_tick (htidy : x.interpreter.Tidy x.context.settings.payloadLimit)
    (h : x.interpreter.Reads x.context.settings.payloadLimit r) (c : Char) :
    x.Draws (r.step? c).toList (x.tick c) := by
  by_cases hground : r.framing = .ground
  · have hframes := h.frames
    rw [hground] at hframes
    have hr : r.step? c = Reading.ground.step? c := by
      simp only [Reading.step?, hground, Reading.ground]
    have htick : x.tick c = (x.settleBefore (some c)).begin c := by
      rcases hframes with hstate | hstate <;> rw [tick, hstate]
    rw [htick, hr]
    exact (x.draws_settleBefore (some c)).trans (draws_begin _ c)
  · have hset := graphicSet_tick htidy h hground c
    have hstates := h.frames.state_ne hground
    have hdone := htidy.keepsText.textDone hstates.1 hstates.2
    have hafter := textDone_tick hstates.1 hdone c
    exact draws_of_withoutWrites (hafter.textRun.trans hdone.textRun.symm)
      (x.withoutWrites_tick hstates.1 hstates.2 c) hset (Reading.step?_ne_print hground c)

/-- A stream takes its steps, in order. -/
theorem draws_after {settings : Settings}
    (hsettings : (Likeness.ofSettings Transcript κ settings).Alike x x)
    (htidy : x.interpreter.Tidy settings.payloadLimit)
    (h : x.interpreter.Reads settings.payloadLimit r) (s : List Char) :
    x.Draws (r.steps s) (x.after s) := by
  induction s generalizing x r with
  | nil => exact ⟨rfl, (List.append_nil _).symm⟩
  | cons c s ih =>
    have hlimit : x.context.settings = settings := hsettings.host.left
    have hnow : x.interpreter.Tidy x.context.settings.payloadLimit := hlimit ▸ htidy
    have hreads : x.interpreter.Reads x.context.settings.payloadLimit r := hlimit ▸ h
    have hdraws := draws_tick hnow hreads c
    have hnext := reads_tick hnow hreads c
    rw [hlimit] at hnext
    rw [after_cons]
    exact hdraws.trans (ih (hsettings.tick c) (tidy_after hsettings htidy [c]) hnext)

end Progress

/-! ### Terminals -/

/-- Joining texts does not change what is written. -/
theorem flatMap_text_joinWrites (calls : List Call) :
    (joinWrites calls).flatMap Call.text = calls.flatMap Call.text :=
  flatMap_joinWrites (by simp [Call.text]) calls

namespace Terminal

variable {σ κ : Type} [Clipboard κ] {t : Terminal σ κ}

/-- The text that is written to the screen of a terminal while pieces of text are delivered. -/
def textShown (t : Terminal σ κ) (pieces : List (List Char)) : List Char :=
  (t.calls pieces).flatMap Call.text

omit [Clipboard κ] in
/-- At rest no text waits to be written. -/
theorem AtRest.text_progress {t : Terminal Transcript κ} (h : t.AtRest) :
    t.progress.text = t.screen.calls.toList.flatMap Call.text := by
  have hnone : t.progress.interpreter.textRun = .empty := h.textDone.textRun
  rw [Progress.text, hnone]
  exact List.append_nil _

omit [Clipboard κ] in
/-- A terminal with nothing in progress reads nothing. -/
theorem AtRest.reads_ground (h : t.AtRest) (hready : t.state = .ready) :
    t.progress.interpreter.Reads t.host.settings.payloadLimit .ground := by
  have hstate : t.interpreter.state = .ready := hready
  refine ⟨.inl hready, h.tidy.escape.resolve_left ?_⟩
  simp [hstate]

/-- After a stream nothing is in progress just if nothing is being read of it. -/
theorem AtRest.state_eq_ready_iff [Screen σ] (h : t.AtRest) (hready : t.state = .ready)
    (pieces : List (List Char)) :
    (t.writeAll pieces).state = .ready ↔
      (Reading.ground.after pieces.flatten).framing = .ground := by
  have hflatten : pieces.flatten = [pieces.flatten].flatten := List.flatten_singleton.symm
  have hsame := (sameBesideScreen_of_flatten_eq h hflatten).1.interpreter
  generalize pieces.flatten = s at hsame
  have hreads := Progress.reads_after (x := t.progress) (Progress.alike_ofSettings h.textDone)
    h.tidy (h.reads_ground hready) s
  have hstate : (t.writeAll pieces).state = (t.progress.after s).settle.interpreter.state := by
    rw [state, hsame]
    exact congrArg (·.interpreter.state) (write_eq h s)
  rw [hstate, Progress.settle]
  constructor
  · intro hsettled
    by_contra hframing
    obtain ⟨hne, hne'⟩ := hreads.frames.state_ne hframing
    exact hne ((if_neg hne').symm.trans hsettled)
  · intro hframing
    have hframes := hreads.frames
    rw [hframing] at hframes
    rcases hframes with hdone | hwaits
    · exact (if_neg (by simp [hdone])).trans hdone
    · exact if_pos hwaits

/-- A stream takes its steps if it is delivered to a transcript in one piece. -/
theorem AtRest.draws_write {t : Terminal Transcript κ} (h : t.AtRest) (hready : t.state = .ready)
    (s : List Char) : t.progress.Draws (Reading.ground.steps s) (t.write s).progress := by
  have hafter := Progress.draws_after (x := t.progress) (Progress.alike_ofSettings h.textDone)
    h.tidy (h.reads_ground hready) s
  have hdraws := hafter.trans (Progress.draws_settle _)
  rw [List.append_nil] at hdraws
  rw [write_eq h]
  exact ⟨hdraws.graphicSet, hdraws.text⟩

/-- A stream shows what its steps show, in whatever pieces it is delivered, and leaves the character
sets as its steps do. -/
theorem AtRest.textShown_eq [Screen σ] (h : t.AtRest) (hready : t.state = .ready)
    (pieces : List (List Char)) :
    t.textShown pieces = shownAll (Reading.ground.steps pieces.flatten) t.host.graphicSet ∧
      (t.writeAll pieces).host.graphicSet =
        onAll (Reading.ground.steps pieces.flatten) t.host.graphicSet := by
  have hflatten : pieces.flatten = [pieces.flatten].flatten := List.flatten_singleton.symm
  obtain ⟨hsame, hjoined⟩ := sameBesideScreen_of_flatten_eq h hflatten
  generalize pieces.flatten = s at hsame hjoined
  -- Which text is written does not depend on the screen, so it is looked at on a transcript.
  obtain ⟨hset, htext⟩ := h.onTranscript.draws_write hready s
  rw [h.onTranscript.text_progress, (h.onTranscript.write s).text_progress] at htext
  have hwhole : t.textShown pieces = t.textShown [s] := by
    rw [textShown, ← flatMap_text_joinWrites, hjoined, flatMap_text_joinWrites, textShown]
  refine ⟨hwhole.trans htext, ?_⟩
  have hreplayed := (h.replayed.writeAll [s]).host.store
  have hstore := hreplayed.getD_eq (k := Key.graphicSet) not_false .initial
  have hbeside := hsame.store.getD_eq (k := Key.graphicSet) (by decide) .initial
  exact (hbeside.trans hstore.symm).trans hset

end Terminal

end ControlStream
