import ControlStream.Proofs.AtRest

/-!
# What reaches a screen

Which calls an interpreter makes to a screen does not depend on the screen. They are found with a
transcript in the place of the screen, and making them is all that happens to the screen. No control
character is ever among the text of a call.

## Main definitions

* `Terminal.calls`: the calls made to the screen of a terminal while text is delivered.
* `Likeness.replayed`: a transcript and the screen that comes of it.

## Main statements

* `Terminal.AtRest.replayed`: a terminal is like the one with a transcript for its screen.
* `Terminal.AtRest.screen_writeAll`: a screen is what comes of the calls.
* `Terminal.Reachable.calls_permitted`: what the calls to any screen can be.
-/

namespace ControlStream

/-- A screen that has come of permitted calls, and one more of them. -/
theorem Transcript.replay_on {σ : Type} [Screen σ] {screen s : σ} {t : Transcript} {call : Call}
    (hcall : call.Permitted)
    (h : s = replay t.calls.toList screen ∧ ∀ call ∈ t.calls.toList, call.Permitted) :
    call.on s = replay (call.on t).calls.toList screen ∧
      ∀ other ∈ (call.on t).calls.toList, other.Permitted := by
  obtain ⟨rfl, hall⟩ := h
  rw [Transcript.toList_on]
  refine ⟨by rw [replay_append]; rfl, ?_⟩
  intro other hother
  rw [List.mem_append, List.mem_singleton] at hother
  rcases hother with hother | rfl
  · exact hall other hother
  · exact hcall

/-- What a transcript and a screen have in common if the screen has come of the calls in the
transcript, all of which are permitted. The rest of the hosts is the same. -/
def Likeness.replayed {σ : Type} (κ : Type) [Screen σ] [Clipboard κ] (screen : σ)
    (settings : Settings) : Likeness Transcript σ κ κ :=
  .ofScreens κ settings (fun _ => False)
    (fun t s => s = replay t.calls.toList screen ∧ ∀ call ∈ t.calls.toList, call.Permitted)
    not_false not_false Transcript.replay_on

namespace Terminal

variable {σ κ : Type}

/-- The same terminal with an empty transcript in the place of its screen. -/
def onTranscript (t : Terminal σ κ) : Terminal Transcript κ :=
  ⟨t.input, t.interpreter, { t.host with screen := ⟨#[]⟩ }⟩

theorem AtRest.onTranscript {t : Terminal σ κ} (h : t.AtRest) : t.onTranscript.AtRest :=
  ⟨h.input, h.textDone, h.tidy⟩

variable [Screen σ] [Clipboard κ]

/-- The calls made to the screen of a terminal while pieces of text are delivered. -/
def calls (t : Terminal σ κ) (pieces : List (List Char)) : List Call :=
  (t.onTranscript.writeAll pieces).screen.calls.toList

/-- A terminal is like the one with a transcript in the place of its screen. -/
theorem AtRest.replayed {t : Terminal σ κ} (h : t.AtRest) :
    (Likeness.replayed κ t.screen t.host.settings).Terminals t.onTranscript t where
  left := h.onTranscript
  right := h
  interpreter := rfl
  host := ⟨.refl _ _, ⟨rfl, by simp [Terminal.onTranscript]⟩, rfl, rfl, rfl, rfl⟩

/-- All that happens to a screen is that the calls are made to it. -/
theorem AtRest.screen_writeAll {t : Terminal σ κ} (h : t.AtRest) (pieces : List (List Char)) :
    (t.writeAll pieces).screen = replay (t.calls pieces) t.screen :=
  (h.replayed.writeAll pieces).host.screen.1

theorem AtRest.permitted_of_mem_calls {t : Terminal σ κ} (h : t.AtRest)
    {pieces : List (List Char)} {call : Call} (hcall : call ∈ t.calls pieces) : call.Permitted :=
  (h.replayed.writeAll pieces).host.screen.2 call hcall

/-- Whatever the screen, all that happens to it is that the calls are made, and no text among them
is empty or contains a control character; the control characters that are passed on to it are CR,
LF, VT, FF, BS, TAB and BEL. -/
theorem Reachable.calls_permitted {t : Terminal σ κ} (h : t.Reachable)
    (pieces : List (List Char)) :
    (t.writeAll pieces).screen = replay (t.calls pieces) t.screen ∧
      (∀ text, Call.write text ∈ t.calls pieces →
        text ≠ "" ∧ ∀ c ∈ text.toList, isControl c = false) ∧
      ∀ c, Call.control c ∈ t.calls pieces →
        c ∈ [ControlChar.cr, ControlChar.lf, ControlChar.vt, ControlChar.ff, ControlChar.bs,
          ControlChar.tab, ControlChar.bel] := by
  refine ⟨h.atRest.screen_writeAll pieces, ?_, ?_⟩
  · intro text htext
    exact h.atRest.permitted_of_mem_calls htext
  · intro c hc
    exact h.atRest.permitted_of_mem_calls hc

/-- A line drawing character, NUL and a bell, delivered to a page. -/
theorem calls_permitted_page :
    let t := onPage (.empty 80) .standard
    let pieces := ["\x1b(0q\x00\x07".toList]
    t.Reachable ∧ t.calls pieces = [.write "─", .control ControlChar.bel] ∧
      ∀ text, Call.write text ∈ t.calls pieces →
        text ≠ "" ∧ ∀ c ∈ text.toList, isControl c = false := by
  have hreachable : (onPage (.empty 80) .standard).Reachable := .onScreen _ _ _
  obtain ⟨-, htext, -⟩ := Reachable.calls_permitted hreachable ["\x1b(0q\x00\x07".toList]
  refine ⟨hreachable, ?_, htext⟩
  rw [calls, writeAll, List.foldl_cons, List.foldl_nil, write_eq hreachable.atRest.onTranscript]
  rfl

end Terminal

end ControlStream
