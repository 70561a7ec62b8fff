import ControlStream.Snapshot
import ControlStream.Proofs.ScreenCalls

/-!
# How a stream is divided

A stream may be delivered in pieces of any size, and be divided anywhere: in a sequence, between an
ESC and the character after it, or in a run of text. The end of a delivery writes the run of text
that waits, so a run may reach the screen in several parts; nothing else depends on the division.

## Main definitions

* `Likeness.joined`: transcripts that come to the same, and stores that may differ in the text
  written last.
* `Terminal.SameBesideScreen`: terminals that differ at most in their screens and the text written
  last.

## Main statements

* `Progress.settle_tick_settle`: a run of text may be written at any time.
* `Terminal.joined_writeAll`: several deliveries come to the same as a single one.
* `Terminal.writeAll_flatten`: the division of a stream makes no difference.
-/

namespace ControlStream

/-! ### Transcripts that come to the same -/

theorem Key.graphicSet_ne_written : graphicSet.name ≠ written.name := by decide

theorem Key.insertMode_ne_written : insertMode.name ≠ written.name := by decide

/-- What two hosts have in common if the calls to their screens come to the same and only the texts
written last may differ. -/
def Likeness.joined (κ : Type) [Clipboard κ] (settings : Settings) :
    Likeness Transcript Transcript κ κ :=
  .ofScreens κ settings (fun name => name = Key.written.name)
    (fun t u => joinWrites t.calls.toList = joinWrites u.calls.toList)
    Key.graphicSet_ne_written Key.insertMode_ne_written Transcript.joinWrites_on_congr

namespace Likeness

/-- The text written last may be any. -/
theorem agreeExcept_set_written (κ : Type) [Clipboard κ] (settings : Settings) (s : Store)
    (text : String) : (s.set .written text).AgreeExcept (joined κ settings).ignored s := by
  have hwritten : (joined κ settings).ignored Key.written.name := rfl
  exact Store.AgreeExcept.set_of_ignored s hwritten text

variable {κ : Type} [Clipboard κ] {settings : Settings}

theorem Hosts.joined_refl {a : Host Transcript κ} (h : a.settings = settings) :
    (joined κ settings).Hosts a a := ⟨.refl _ _, rfl, rfl, rfl, h, h⟩

theorem Hosts.joined_symm {a b : Host Transcript κ} (h : (joined κ settings).Hosts a b) :
    (joined κ settings).Hosts b a :=
  ⟨h.store.symm, h.screen.symm, h.clipboard.symm, h.replies.symm, h.right, h.left⟩

theorem Hosts.joined_trans {a b c : Host Transcript κ} (h : (joined κ settings).Hosts a b)
    (h' : (joined κ settings).Hosts b c) : (joined κ settings).Hosts a c :=
  ⟨h.store.trans h'.store, h.screen.trans h'.screen, h.clipboard.trans h'.clipboard,
    h.replies.trans h'.replies, h.left, h'.right⟩

theorem Alike.joined_symm {x y : Progress Transcript κ} (h : (joined κ settings).Alike x y) :
    (joined κ settings).Alike y x :=
  ⟨h.interpreter.symm, h.interpreter ▸ h.printable, h.host.joined_symm⟩

theorem Alike.joined_trans {x y z : Progress Transcript κ} (h : (joined κ settings).Alike x y)
    (h' : (joined κ settings).Alike y z) : (joined κ settings).Alike x z :=
  ⟨h.interpreter.trans h'.interpreter, h.printable, h.host.joined_trans h'.host⟩

/-- What is like anything is like itself. -/
theorem Alike.joined_self {x y : Progress Transcript κ} (h : (joined κ settings).Alike x y) :
    (joined κ settings).Alike x x := h.joined_trans h.joined_symm

end Likeness

/-! ### A run of text may be written at any time -/

namespace Progress

section Text

variable {σ κ : Type} [Screen σ]

/-- Writing a run of text after one more character. -/
theorem settle_addText (x : Progress σ κ) (c : Char) :
    let set := x.context.store.getD Key.graphicSet Storable.initial
    let text := x.interpreter.textRun.pending.push (set.current.translate c)
    (x.addText c).settle =
      ⟨{ x.interpreter with state := .ready, textRun := .empty },
        { x.context with
          screen := Screen.write x.context.screen text
          store := (x.context.store.set .graphicSet set.afterOne).set .written text }⟩ := by
  intro set text
  have hadded : (x.addText c).settle =
      settle ⟨{ x.interpreter with state := .text, textRun := ⟨text⟩ },
        { x.context with store := x.context.store.set .graphicSet set.afterOne }⟩ := by
    simp only [addText]
    split
    · exact settle_settle _
    · rfl
  have hne : (⟨text⟩ : TextRun) ≠ .empty := by
    simp [text, TextRun.empty]
  rw [hadded, settle, TextRun.flush_of_ne hne]
  rfl

end Text

variable {κ : Type} [Clipboard κ] {settings : Settings}

/-- Writing a run of text before a printable character divides it, and no more. -/
theorem settle_addText_settle {x : Progress Transcript κ}
    (hx : (Likeness.joined κ settings).Alike x x) (c : Char) :
    (Likeness.joined κ settings).Alike (x.settle.addText c).settle (x.addText c).settle := by
  obtain ⟨i, ctx⟩ := x
  have hhost : (Likeness.joined κ settings).Hosts ctx.toHost ctx.toHost := hx.host
  rw [settle_addText, settle_addText]
  refine ⟨rfl, by simp [TextRun.empty], ?_⟩
  by_cases hempty : i.textRun = .empty
  · simp only [settle, hempty, TextRun.flush_empty]
    exact .joined_refl hhost.left
  · -- The texts of the two calls are joined to that of the single one.
    have hwritten := Likeness.agreeExcept_set_written κ settings
    have hset : (ctx.store.set .written i.textRun.pending).getD Key.graphicSet Storable.initial =
        ctx.store.getD Key.graphicSet Storable.initial :=
      (hwritten _ _).getD_eq (Likeness.joined κ settings).graphicSet_not_ignored _
    simp only [settle, TextRun.flush_of_ne hempty, hset]
    generalize ctx.store.getD Key.graphicSet Storable.initial = set
    refine ⟨?_, ?_, rfl, rfl, hhost.left, hhost.left⟩
    · exact ((hwritten _ _).trans ((hwritten _ _).set _ _)).trans (hwritten _ _).symm
    · have hjoin := joinWrites_append_writes ctx.screen.calls.toList i.textRun.pending
        ("".push (set.current.translate c))
      have hpush : i.textRun.pending ++ "".push (set.current.translate c) =
          i.textRun.pending.push (set.current.translate c) := by
        rw [String.push_eq_append]
        rfl
      rw [hpush] at hjoin
      simpa [Likeness.joined, Likeness.ofScreens, Screen.write, Transcript.add, TextRun.empty]
        using hjoin

/-- A run of text may be written before any character. -/
theorem settle_tick_settle {x : Progress Transcript κ}
    (hx : (Likeness.joined κ settings).Alike x x) (htext : x.interpreter.KeepsText) (c : Char) :
    (Likeness.joined κ settings).Alike (x.settle.tick c).settle (x.tick c).settle := by
  by_cases hstate : x.interpreter.state = .ready ∨ x.interpreter.state = .text
  · have htick : x.tick c = (x.settleBefore (some c)).begin c := by
      rcases hstate with hstate | hstate <;> rw [tick, hstate]
    have hready : x.settle.interpreter.state = .ready := by
      rcases hstate with hstate | hstate <;> simp [settle, hstate]
    have hsettled : x.settle.tick c = x.settle.begin c := by
      rw [tick, hready]
      exact congrArg (begin · c) (settleBefore_of_textDone x.textDone_settle _)
    rw [htick, hsettled]
    by_cases hends : endsText c = true
    · have hbefore : x.settleBefore (some c) = x.settle := if_pos hends
      rw [hbefore]
      exact (hx.settle.begin c).settle
    · have hbefore : x.settleBefore (some c) = x := if_neg hends
      rw [hbefore]
      rcases Opening.ofChar_of_not_endsText (Bool.eq_false_iff.mpr hends) with rfl | ⟨-, hc⟩
      · have hdone : (x.settle.withState .ready).interpreter.TextDone :=
          ⟨by simp [withState], x.textDone_settle.textRun⟩
        rw [begin_nul, begin_nul, settle_of_textDone hdone]
        exact (hx.withState .ready).settle
      · rw [begin_of_text _ hc, begin_of_text _ hc]
        exact settle_addText_settle hx c
  · rw [not_or] at hstate
    rw [settle_of_textDone (htext.textDone hstate.1 hstate.2)]
    exact (hx.tick c).settle

/-- A run of text may be written before any characters. -/
theorem settle_after_settle {x : Progress Transcript κ}
    (hx : (Likeness.joined κ settings).Alike x x) (htext : x.interpreter.KeepsText)
    (s : List Char) :
    (Likeness.joined κ settings).Alike (x.settle.after s).settle (x.after s).settle := by
  induction s generalizing x with
  | nil =>
    rw [after_nil, after_nil, settle_settle]
    exact hx.settle
  | cons c s ih =>
    -- Writing the run before the first character comes to the same as writing it after.
    have hfirst := ((settle_tick_settle hx htext c).after s).settle
    have hsettled := ih (hx.settle.tick c) (keepsText_tick x.textDone_settle.keepsText c)
    have hunsettled := ih (hx.tick c) (keepsText_tick htext c)
    exact (hsettled.joined_symm.joined_trans hfirst).joined_trans hunsettled

end Progress

/-! ### Deliveries -/

namespace Terminal

section Joined

variable {κ : Type} [Clipboard κ] {settings : Settings}

/-- After a delivery the characters have been interpreted and the run of text is written. -/
theorem joined_write {t : Terminal Transcript κ} (h : t.AtRest)
    {x : Progress Transcript κ} (hx : (Likeness.joined κ settings).Alike t.progress x)
    (s : List Char) :
    (Likeness.joined κ settings).Alike (t.write s).progress (x.after s).settle := by
  have halike := (hx.after s).settle
  rw [write_eq h]
  exact ⟨halike.interpreter, halike.printable, halike.host⟩

/-- Several deliveries come to the same as a single one. -/
theorem joined_writeAll {t : Terminal Transcript κ} (h : t.AtRest)
    {x : Progress Transcript κ} (hx : (Likeness.joined κ settings).Alike t.progress x)
    (pieces : List (List Char)) :
    (Likeness.joined κ settings).Alike (t.writeAll pieces).progress
      (x.after pieces.flatten).settle := by
  induction pieces generalizing t x with
  | nil =>
    have hdone : x.interpreter.TextDone := hx.interpreter ▸ h.textDone
    rw [List.flatten_nil, Progress.after_nil, Progress.settle_of_textDone hdone]
    exact hx
  | cons s pieces ih =>
    have hself := hx.joined_symm.joined_self.after s
    have hdone : x.interpreter.TextDone := hx.interpreter ▸ h.textDone
    have hkeeps := Progress.keepsText_after hdone.keepsText s
    have hpieces := ih (h.write s) (joined_write h hx s)
    rw [List.flatten_cons, Progress.after_append]
    exact hpieces.joined_trans (Progress.settle_after_settle hself hkeeps _)

/-- Whether a stream is divided in one way or in another, the calls come to the same. -/
theorem joined_of_flatten_eq {t : Terminal Transcript κ} (h : t.AtRest)
    {pieces more : List (List Char)} (hflatten : pieces.flatten = more.flatten) :
    (Likeness.joined κ t.host.settings).Alike (t.writeAll pieces).progress
      (t.writeAll more).progress := by
  have hself : (Likeness.joined κ t.host.settings).Alike t.progress t.progress :=
    .of_textDone h.textDone (.joined_refl rfl)
  have hpieces := joined_writeAll h hself pieces
  have hmore := joined_writeAll h hself more
  rw [← hflatten] at hmore
  exact hpieces.joined_trans hmore.joined_symm

end Joined

/-- Two terminals differ at most in their screens and in the text written last. -/
structure SameBesideScreen {σ κ : Type} (t u : Terminal σ κ) : Prop where
  input : t.input = u.input
  interpreter : t.interpreter = u.interpreter
  store : t.store.AgreeExcept (· = Key.written.name) u.store
  clipboard : t.host.clipboard = u.host.clipboard
  replies : t.host.replies = u.host.replies
  settings : t.host.settings = u.host.settings

/-- The screen of a terminal on a page contributes what it shows to a snapshot, and nothing else
that snapshots have differs with the text written last. -/
theorem SameBesideScreen.snapshot_eq {κ : Type} {t u : Terminal Page κ} (h : t.SameBesideScreen u)
    (hscreen : t.screen.layout = u.screen.layout) (contents : κ → Option String) :
    Snapshot.ofTerminal contents t = Snapshot.ofTerminal contents u := by
  have hwidth : t.screen.width = u.screen.width := by
    simpa using congrArg Page.width hscreen
  have hlines : t.screen.lines = u.screen.lines := by
    simpa using congrArg Page.lines hscreen
  have hrow : t.screen.row = u.screen.row := by
    simpa using congrArg Page.row hscreen
  have hcolumn : t.screen.column = u.screen.column := by
    simpa using congrArg Page.column hscreen
  have hget : ∀ {α : Type} [Storable α] (k : Key α), k.name ≠ Key.written.name →
      t.store.get? k = u.store.get? k := fun k hk => h.store.get?_eq hk
  have hstate : t.state = u.state := congrArg Interpreter.state h.interpreter
  simp only [Snapshot.ofTerminal, title?, iconTitle?, workdir?, insertMode, Store.getD, hwidth,
    hlines, hrow, hcolumn, hstate, h.store.palette, h.clipboard, h.replies,
    hget Key.windowTitle (by decide), hget Key.iconTitle (by decide), hget Key.workdir (by decide),
    hget Key.insertMode (by decide), hget Key.cursorVisible (by decide),
    hget Key.applicationKeypad (by decide), hget Key.graphicSet (by decide)]

section Division

variable {σ κ : Type} [Screen σ] [Clipboard κ]

/-- Deliveries that come to the same on a transcript leave terminals that differ at most in their
screens and the text written last, and the calls made to the screens come to the same. -/
theorem sameBesideScreen_of_joined {t : Terminal σ κ} (h : t.AtRest)
    {pieces more : List (List Char)}
    (hjoined : (Likeness.joined κ t.host.settings).Alike (t.onTranscript.writeAll pieces).progress
      (t.onTranscript.writeAll more).progress) :
    (t.writeAll pieces).SameBesideScreen (t.writeAll more) ∧
      joinWrites (t.calls pieces) = joinWrites (t.calls more) := by
  have hpieces := h.replayed.writeAll pieces
  have hmore := h.replayed.writeAll more
  have hleft := hpieces.host
  have hright := hmore.host
  refine ⟨⟨?_, ?_, ?_, ?_, ?_, ?_⟩, hjoined.host.screen⟩
  · rw [hpieces.right.input, hmore.right.input]
  · exact (hpieces.interpreter.symm.trans hjoined.interpreter).trans hmore.interpreter
  · have hnone : ∀ name : String, False → name = Key.written.name := fun _ h => h.elim
    exact ((hleft.store.weaken hnone).symm.trans hjoined.host.store).trans
      (hright.store.weaken hnone)
  · exact (hleft.clipboard.symm.trans hjoined.host.clipboard).trans hright.clipboard
  · exact (hleft.replies.symm.trans hjoined.host.replies).trans hright.replies
  · exact hleft.right.trans hright.right.symm

/-- Two ways to divide a stream leave terminals that differ at most in their screens and the text
written last, and the calls made to the screens come to the same. -/
theorem sameBesideScreen_of_flatten_eq {t : Terminal σ κ} (h : t.AtRest)
    {pieces more : List (List Char)} (hflatten : pieces.flatten = more.flatten) :
    (t.writeAll pieces).SameBesideScreen (t.writeAll more) ∧
      joinWrites (t.calls pieces) = joinWrites (t.calls more) :=
  sameBesideScreen_of_joined h (joined_of_flatten_eq h.onTranscript hflatten)

/-- A page shows the same after calls that come to the same. -/
theorem AtRest.layout_writeAll_congr {t : Terminal Page κ} (h : t.AtRest)
    {pieces more : List (List Char)}
    (hcalls : joinWrites (t.calls pieces) = joinWrites (t.calls more)) :
    (t.writeAll pieces).screen.layout = (t.writeAll more).screen.layout := by
  calc (t.writeAll pieces).screen.layout
      = (replay (t.calls pieces) t.screen).layout := by rw [h.screen_writeAll]
    _ = (replay (joinWrites (t.calls pieces)) t.screen).layout :=
      (Page.layout_replay_joinWrites _ _).symm
    _ = (replay (joinWrites (t.calls more)) t.screen).layout := by rw [hcalls]
    _ = (replay (t.calls more) t.screen).layout := Page.layout_replay_joinWrites _ _
    _ = (t.writeAll more).screen.layout := by rw [h.screen_writeAll]

/-- A page shows the same whichever way a stream is divided. -/
theorem layout_of_flatten_eq {t : Terminal Page κ} (h : t.AtRest) {pieces more : List (List Char)}
    (hflatten : pieces.flatten = more.flatten) :
    (t.writeAll pieces).screen.layout = (t.writeAll more).screen.layout :=
  h.layout_writeAll_congr (sameBesideScreen_of_flatten_eq h hflatten).2

end Division

/-- However a stream is divided, a terminal ends with the same interpreter, the same values but for
the text written last, the same clipboard and the same replies. Its screen has come of calls that
are the same once the texts of calls that follow each other are joined; and a page shows the same,
so that snapshots do not differ. -/
theorem writeAll_flatten {pieces more : List (List Char)} (h : pieces.flatten = more.flatten) :
    (∀ {σ κ : Type} [Screen σ] [Clipboard κ] {t : Terminal σ κ}, t.Reachable →
      (t.writeAll pieces).SameBesideScreen (t.writeAll more) ∧
      (t.writeAll pieces).screen = replay (t.calls pieces) t.screen ∧
      (t.writeAll more).screen = replay (t.calls more) t.screen ∧
      joinWrites (t.calls pieces) = joinWrites (t.calls more)) ∧
    ∀ {κ : Type} [Clipboard κ] {t : Terminal Page κ}, t.Reachable →
      (t.writeAll pieces).screen.layout = (t.writeAll more).screen.layout ∧
      ∀ contents : κ → Option String,
        Snapshot.ofTerminal contents (t.writeAll pieces) =
          Snapshot.ofTerminal contents (t.writeAll more) := by
  constructor
  · intro σ κ _ _ t ht
    obtain ⟨hsame, hcalls⟩ := sameBesideScreen_of_flatten_eq ht.atRest h
    exact ⟨hsame, ht.atRest.screen_writeAll pieces, ht.atRest.screen_writeAll more, hcalls⟩
  · intro κ _ t ht
    obtain ⟨hsame, -⟩ := sameBesideScreen_of_flatten_eq ht.atRest h
    have hlayout := layout_of_flatten_eq ht.atRest h
    exact ⟨hlayout, hsame.snapshot_eq hlayout⟩

/-- A run of text with NUL in it and a control sequence, both of them divided. -/
theorem writeAll_flatten_page :
    let t := onPage (.empty 80) .standard
    let pieces := ["a\x00b\x1b[4h".toList]
    let more := ["a\x00".toList, "b\x1b".toList, [], "[4h".toList]
    pieces.flatten = more.flatten ∧ t.Reachable ∧
      (t.writeAll pieces).SameBesideScreen (t.writeAll more) ∧
      (t.writeAll pieces).screen.layout = (t.writeAll more).screen.layout := by
  have hflatten : ["a\x00b\x1b[4h".toList].flatten =
      ["a\x00".toList, "b\x1b".toList, [], "[4h".toList].flatten := rfl
  have hreachable : (onPage (.empty 80) .standard).Reachable := .onScreen _ _ _
  obtain ⟨hterminals, hpages⟩ := writeAll_flatten hflatten
  exact ⟨hflatten, hreachable, (hterminals hreachable).1, (hpages hreachable).1⟩

end Terminal

end ControlStream
