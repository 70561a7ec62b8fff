import ControlStream.Proofs.Interchange

/-!
# Fillers

NUL and DEL mean nothing and may stand anywhere in a stream. Between sequences, in a run of text and
in a control sequence they are dropped. In an escape sequence they are taken for a final character
that has no effect, so that the sequence ends there as it does with CAN. In strings they are
characters like others.

## Main definitions

* `fillers`: NUL and DEL.
* `Interpreter.State.fillerAs`: what a filler comes to.

## Main statements

* `Progress.settle_tick_filler`: a filler is dropped.
* `Progress.same_tick_filler`: in an escape sequence a filler has the effect of CAN.
* `Terminal.Reachable.filler_dropped`: a filler may be left out of a stream, but for those in escape
  sequences and strings.
-/

namespace ControlStream

open ControlChar

def fillers : List Char := [nul, del]

/-- What a filler comes to outside of strings: nothing, or the end of an escape sequence. -/
def Interpreter.State.fillerAs : Interpreter.State → List Char
  | .escape => [can]
  | _ => []

theorem eq_of_mem_fillers {c : Char} (hc : c ∈ fillers) : c = nul ∨ c = del := by
  simpa [fillers] using hc

/-! ### Single characters -/

/-- For an escape sequence a filler is a final character without effect. -/
theorem EscapeSequence.process_filler {σ κ : Type} [Screen σ] (e : EscapeSequence) {c : Char}
    (hc : c ∈ fillers) (ctx : Context σ κ) :
    ∃ event, e.process c ctx = ⟨.ready, initial, ctx.log event⟩ := by
  obtain ⟨intermediate⟩ := e
  rcases eq_of_mem_fillers hc with rfl | rfl
  · match intermediate with
    | none => exact ⟨_, rfl⟩
    | some (.designate slot) => exact ⟨_, rfl⟩
    | some (.other first) => exact ⟨_, rfl⟩
  · match intermediate with
    | none => exact ⟨_, rfl⟩
    | some (.designate slot) => exact ⟨_, rfl⟩
    | some (.other first) => exact ⟨_, rfl⟩

/-- A control sequence drops a filler. -/
theorem ControlSequence.process_filler {σ κ : Type} [Screen σ] (s : ControlSequence) {c : Char}
    (hc : c ∈ fillers) (ctx : Context σ κ) : s.process c ctx = ⟨.control, s, ctx⟩ := by
  rcases eq_of_mem_fillers hc with rfl | rfl <;> rfl

namespace Progress

/-- Whether a run of text is in progress does not matter to what a filler comes to. -/
theorem settle_state_congr {α σ κ : Type} [Screen σ] (f : Interpreter.State → α)
    (hf : f .text = f .ready) (x : Progress σ κ) :
    f x.settle.interpreter.state = f x.interpreter.state := by
  simp only [settle]
  split
  · rename_i htext
    rw [htext, hf]
  · rfl

theorem settle_withState_ready {σ κ : Type} [Screen σ] {x : Progress σ κ}
    (h : x.interpreter.state = .ready ∨ x.interpreter.state = .text) :
    (x.withState .ready).settle = x.settle := by
  rcases h with h | h <;> simp [settle, withState, h]

variable {σ κ : Type} [Screen σ] [Clipboard κ] {x : Progress σ κ} {c : Char}

/-- When nothing is in progress but a run of text, and in a control sequence, a filler does nothing
but that the run may be written. -/
theorem settle_tick_filler (hc : c ∈ fillers) (hescape : x.interpreter.state ≠ .escape)
    (hstring : x.interpreter.state.isString = false) : (x.tick c).settle = x.settle := by
  cases hstate : x.interpreter.state with
  | ready | text =>
    rw [tick, hstate]
    rcases eq_of_mem_fillers hc with rfl | rfl
    · exact settle_withState_ready (x := x) (by simp [hstate])
    · -- Before DEL a run of text is written, and there is none left to write after it.
      have hready : x.settle.interpreter.state = .ready := by simp [settle, hstate]
      exact (settle_withState_ready (.inl hready)).trans x.settle_settle
  | escape => exact absurd hstate hescape
  | control =>
    have htick : x.tick c = x := by
      rw [tick, hstate]
      simp only [tickControl, ControlSequence.process_filler _ hc, ← hstate]
    rw [htick]
  | command | skipped => simp [hstate, Interpreter.State.isString] at hstring

/-- In an escape sequence a filler has the effect of CAN, but for the event that is noted. -/
theorem same_tick_filler (hc : c ∈ fillers) (hescape : x.interpreter.state = .escape) :
    (x.tick c).Same (x.tick can) := by
  obtain ⟨event, hprocess⟩ := x.interpreter.escape.process_filler hc x.context
  rw [tick, tick, hescape]
  simp only [tickEscape, hprocess]
  exact ⟨rfl, rfl⟩

/-- What follows a filler goes on as it does after what the filler comes to. -/
theorem same_settle_filler (htext : x.interpreter.KeepsText) (hc : c ∈ fillers)
    (hstring : x.interpreter.state.isString = false) :
    (x.tick c).settle.Same (x.after x.interpreter.state.fillerAs).settle := by
  by_cases hescape : x.interpreter.state = .escape
  · have hdone : x.interpreter.TextDone := htext.textDone (by simp [hescape]) (by simp [hescape])
    have hnext := textDone_tick (by simp [hescape]) hdone
    rw [hescape, Interpreter.State.fillerAs, after_cons, after_nil, settle_of_textDone (hnext c),
      settle_of_textDone (hnext can)]
    exact same_tick_filler hc hescape
  · have hnone : x.interpreter.state.fillerAs = [] := by
      unfold Interpreter.State.fillerAs
      split
      · exact absurd ‹_› hescape
      · rfl
    rw [hnone, after_nil, settle_tick_filler hc hescape hstring]
    exact .refl _

end Progress

/-! ### Deliveries -/

namespace Progress

variable {κ : Type} [Clipboard κ] {settings : Settings} {x y : Progress Transcript κ}

/-- Interpretations that are the same once their runs of text are written come to the same. -/
theorem joined_of_same_settle (hx : (Likeness.joined κ settings).Alike x x)
    (hy : (Likeness.joined κ settings).Alike y y) (htext : x.interpreter.KeepsText)
    (htext' : y.interpreter.KeepsText) (h : x.settle.Same y.settle) (s : List Char) :
    (Likeness.joined κ settings).Alike (x.after s).settle (y.after s).settle := by
  have hwritten : (Likeness.joined κ settings).Alike x.settle y.settle := by
    refine ⟨h.interpreter, by simp [x.textDone_settle.textRun, TextRun.empty], ?_⟩
    rw [← h.host]
    exact .joined_refl hx.settle.host.left
  have hleft := settle_after_settle hx htext s
  have hright := settle_after_settle hy htext' s
  exact (hleft.joined_symm.joined_trans (hwritten.after s).settle).joined_trans hright

end Progress

namespace Terminal

variable {σ κ : Type} [Screen σ] [Clipboard κ] {c : Char} {u v : List Char}
  {pieces more : List (List Char)}

/-- A filler that does not stand in a string may be left out, or replaced by what it comes to. -/
theorem AtRest.writeAll_filler {t : Terminal σ κ} (h : t.AtRest) (hc : c ∈ fillers)
    (hstring : (t.write u).state.isString = false) (hpieces : pieces.flatten = u ++ c :: v)
    (hmore : more.flatten = u ++ ((t.write u).state.fillerAs ++ v)) :
    (t.writeAll pieces).SameBesideScreen (t.writeAll more) ∧
      joinWrites (t.calls pieces) = joinWrites (t.calls more) := by
  have hself : (Likeness.joined κ t.host.settings).Alike t.onTranscript.progress
      t.onTranscript.progress := .of_textDone h.textDone (.joined_refl rfl)
  have hafter := hself.after u
  have htext : (t.onTranscript.progress.after u).interpreter.KeepsText :=
    Progress.keepsText_after h.textDone.keepsText u
  -- The state after `u` is that of the terminal, but that a run of text may still wait.
  have hstate : (t.write u).state =
      (t.onTranscript.progress.after u).settle.interpreter.state := by
    have hreplayed := (h.replayed.write u).interpreter
    rw [write_eq h.onTranscript] at hreplayed
    exact congrArg Interpreter.state hreplayed.symm
  rw [hstate, Progress.settle_state_congr Interpreter.State.isString rfl] at hstring
  rw [hstate, Progress.settle_state_congr Interpreter.State.fillerAs rfl] at hmore
  have hsame := Progress.same_settle_filler htext hc hstring
  have hjoined := Progress.joined_of_same_settle (hafter.tick c) (hafter.after _)
    (Progress.keepsText_tick htext c) (Progress.keepsText_after htext _) hsame v
  have hleft := joined_writeAll h.onTranscript hself pieces
  have hright := joined_writeAll h.onTranscript hself more
  rw [hpieces, Progress.after_append, Progress.after_cons] at hleft
  rw [hmore, Progress.after_append, Progress.after_append] at hright
  exact sameBesideScreen_of_joined h
    ((hleft.joined_trans hjoined).joined_trans hright.joined_symm)

/-- A filler that does not stand in a string may be left out of what a terminal is delivered, or, in
an escape sequence, be replaced by CAN. Whatever the pieces, a page shows the same, its snapshots do
not differ, and nothing else does but the text written last. -/
theorem Reachable.filler_dropped {t : Terminal Page κ} (h : t.Reachable) (hc : c ∈ fillers)
    (hstring : (t.write u).state.isString = false) (hpieces : pieces.flatten = u ++ c :: v)
    (hmore : more.flatten = u ++ ((t.write u).state.fillerAs ++ v)) :
    (t.writeAll pieces).SameBesideScreen (t.writeAll more) ∧
      (t.writeAll pieces).screen.layout = (t.writeAll more).screen.layout ∧
      ∀ contents : κ → Option String,
        Snapshot.ofTerminal contents (t.writeAll pieces) =
          Snapshot.ofTerminal contents (t.writeAll more) := by
  obtain ⟨hsame, hcalls⟩ := h.atRest.writeAll_filler hc hstring hpieces hmore
  have hlayout := h.atRest.layout_writeAll_congr hcalls
  exact ⟨hsame, hlayout, hsame.snapshot_eq hlayout⟩

/-- A filler in a run of text, and one in an escape sequence that turns the rest of it into text. -/
theorem filler_dropped_page :
    let t := onPage (.empty 80) .standard
    t.Reachable ∧ nul ∈ fillers ∧ del ∈ fillers ∧
      (t.write ['a']).state = .ready ∧ (t.write ['a', esc]).state = .escape ∧
      (t.writeAll [['a', nul], ['b']]).SameBesideScreen (t.write ['a', 'b']) ∧
      (t.writeAll [['a', esc, del], ['b']]).SameBesideScreen (t.write ['a', esc, can, 'b']) := by
  have hreachable : (onPage (.empty 80) .standard).Reachable := .onScreen _ _ _
  have htext : ((onPage (.empty 80) .standard).write ['a']).state = .ready := by
    rw [state, write_eq hreachable.atRest]
    rfl
  have hescape : ((onPage (.empty 80) .standard).write ['a', esc]).state = .escape := by
    rw [state, write_eq hreachable.atRest]
    rfl
  have hnul : nul ∈ fillers := by decide
  have hdel : del ∈ fillers := by decide
  have hdropped : ((onPage (.empty 80) .standard).writeAll [['a', nul], ['b']]).SameBesideScreen
      ((onPage (.empty 80) .standard).writeAll [['a', 'b']]) :=
    (Reachable.filler_dropped (u := ['a']) (v := ['b']) hreachable hnul (by rw [htext]; rfl) rfl
      (by rw [htext]; rfl)).1
  have hcancelled :
      ((onPage (.empty 80) .standard).writeAll [['a', esc, del], ['b']]).SameBesideScreen
        ((onPage (.empty 80) .standard).writeAll [['a', esc, can, 'b']]) :=
    (Reachable.filler_dropped (u := ['a', esc]) (v := ['b']) hreachable hdel
      (by rw [hescape]; rfl) rfl (by rw [hescape]; rfl)).1
  exact ⟨hreachable, hnul, hdel, htext, hescape, hdropped, hcancelled⟩

/-- A filler between ESC and the rest of a control sequence makes a difference: the sequence does
not turn the insert mode on, and the rest of it is shown. -/
theorem filler_not_dropped_insertMode :
    let t := onPage (.empty 80) .standard
    t.Reachable ∧ (t.write [esc]).state.isString = false ∧
      ∀ c ∈ fillers, ∀ contents : MemoryClipboard → Option String,
        Snapshot.ofTerminal contents (t.write ([esc] ++ c :: ['[', '4', 'h'])) ≠
          Snapshot.ofTerminal contents (t.write ([esc] ++ ['[', '4', 'h'])) := by
  have hreachable : (onPage (.empty 80) .standard).Reachable := .onScreen _ _ _
  refine ⟨hreachable, ?_, ?_⟩
  · rw [state, write_eq hreachable.atRest]
    rfl
  · intro c hc contents heq
    have hmodes := congrArg (·.modes.insert) heq
    simp only [Snapshot.ofTerminal, write_eq hreachable.atRest] at hmodes
    rcases eq_of_mem_fillers hc with rfl | rfl
    · exact Bool.false_ne_true hmodes
    · exact Bool.false_ne_true hmodes

end Terminal

end ControlStream
