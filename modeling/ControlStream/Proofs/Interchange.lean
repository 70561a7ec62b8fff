import ControlStream.Proofs.Division

/-!
# Interchangeable beginnings

Two beginnings of a stream are interchangeable for a terminal if it goes on alike after either of
them, whatever follows. This is so if both leave the terminal at the same point and no run of text
is in progress meanwhile: then it does not matter at all how the beginnings are divided.

## Main definitions

* `Interpreter.Idle`: nothing is in progress.
* `Progress.Same`: interpretations that differ at most in the events noted.
* `Progress.Textless`: no run of text is in progress while characters are interpreted.
* `Progress.LeadsTo`: where characters without text lead.
* `Progress.MeetAfter`: two beginnings without text that lead to the same point.
* `Terminal.SameEffect`: streams that have the same effect on a terminal.
* `Terminal.Interchangeable`: beginnings after which a terminal goes on alike.

## Main statements

* `Terminal.same_writeAll`: without text, the division of a stream makes no difference at all.
* `Terminal.AtRest.interchangeable`: beginnings that lead to the same point are interchangeable.
-/

namespace ControlStream

structure Interpreter.Idle (i : Interpreter) : Prop where
  ready : i.state = .ready
  textRun : i.textRun = .empty
  clear : i.Clear

theorem Interpreter.Idle.textDone {i : Interpreter} (h : i.Idle) : i.TextDone :=
  ⟨by simp [h.ready], h.textRun⟩

theorem Terminal.AtRest.idle {σ κ : Type} {t : Terminal σ κ} (h : t.AtRest)
    (hready : t.state = .ready) : t.interpreter.Idle :=
  ⟨hready, h.textDone.textRun, h.tidy.clear (.inl hready)⟩

/-! ### Interpretations that are the same -/

/-- Stores that agree on all names are equal. -/
theorem Store.AgreeExcept.eq {s t : Store} (h : s.AgreeExcept (fun _ => False) t) : s = t := by
  obtain ⟨entries, palette⟩ := s
  obtain ⟨entries', palette'⟩ := t
  obtain ⟨hentries, rfl⟩ := h
  have hentries' : entries = entries' :=
    Std.ExtTreeMap.ext_getElem? fun {name} => hentries name not_false
  rw [hentries']

theorem Call.on_congr {σ : Type} [Screen σ] {s t : σ} {call : Call} (_ : call.Permitted)
    (h : s = t) : call.on s = call.on t := by
  rw [h]

/-- What hosts have in common that are the same. -/
def Likeness.same (σ κ : Type) [Screen σ] [Clipboard κ] (settings : Settings) :
    Likeness σ σ κ κ :=
  .ofScreens κ settings (fun _ => False) Eq not_false not_false Call.on_congr

namespace Likeness

variable {σ κ : Type} [Screen σ] [Clipboard κ]

theorem Hosts.same_refl (a : Host σ κ) : (same σ κ a.settings).Hosts a a :=
  ⟨.refl _ _, rfl, rfl, rfl, rfl, rfl⟩

theorem Hosts.eq_of_same {settings : Settings} {a b : Host σ κ}
    (h : (same σ κ settings).Hosts a b) : a = b := by
  obtain ⟨store, screen, clipboard, replies, settingsA⟩ := a
  obtain ⟨store', screen', clipboard', replies', settingsB⟩ := b
  obtain ⟨hstore, hscreen, hclipboard, hreplies, hleft, hright⟩ := h
  cases hstore.eq
  cases hscreen
  cases hclipboard
  cases hreplies
  rw [show settingsA = settingsB from hleft.trans hright.symm]

end Likeness

namespace Progress

variable {σ κ : Type}

structure Same (x y : Progress σ κ) : Prop where
  interpreter : x.interpreter = y.interpreter
  host : x.context.toHost = y.context.toHost

namespace Same

variable {x y z : Progress σ κ}

theorem refl (x : Progress σ κ) : x.Same x := ⟨rfl, rfl⟩

theorem symm (h : x.Same y) : y.Same x := ⟨h.interpreter.symm, h.host.symm⟩

theorem trans (h : x.Same y) (h' : y.Same z) : x.Same z :=
  ⟨h.interpreter.trans h'.interpreter, h.host.trans h'.host⟩

theorem withState (h : x.Same y) (state : Interpreter.State) :
    (x.withState state).Same (y.withState state) :=
  ⟨by rw [Progress.withState, Progress.withState, h.interpreter], h.host⟩

variable [Screen σ] [Clipboard κ]

theorem alike (h : x.Same y) (hdone : x.interpreter.TextDone) :
    (Likeness.same σ κ x.context.settings).Alike x y where
  interpreter := h.interpreter
  printable := by simp [hdone.textRun, TextRun.empty]
  host := h.host ▸ .same_refl _

theorem of_alike {settings : Settings} (h : (Likeness.same σ κ settings).Alike x y) : x.Same y :=
  ⟨h.interpreter, h.host.eq_of_same⟩

/-- Events have no effect on what follows. -/
theorem after (h : x.Same y) (hdone : x.interpreter.TextDone) (s : List Char) :
    (x.after s).Same (y.after s) := of_alike ((h.alike hdone).after s)

theorem settle_after (h : x.Same y) (hdone : x.interpreter.TextDone) (s : List Char) :
    (x.after s).settle.Same (y.after s).settle := of_alike ((h.alike hdone).after s).settle

end Same

/-! ### Characters without text -/

variable [Screen σ] [Clipboard κ] {x : Progress σ κ}

/-- Before and after each of the characters, no run of text is in progress or waits. -/
def Textless (x : Progress σ κ) : List Char → Prop
  | [] => x.interpreter.TextDone
  | c :: s => x.interpreter.TextDone ∧ (x.tick c).Textless s

theorem Textless.textDone {s : List Char} (h : x.Textless s) : x.interpreter.TextDone := by
  cases s with
  | nil => exact h
  | cons c s => exact h.1

theorem textless_append {s t : List Char} :
    x.Textless (s ++ t) ↔ x.Textless s ∧ (x.after s).Textless t := by
  induction s generalizing x with
  | nil => exact ⟨fun h => ⟨h.textDone, h⟩, And.right⟩
  | cons c s ih => simp only [List.cons_append, Textless, ih, and_assoc, after_cons]

theorem Textless.after {s : List Char} (h : x.Textless s) : (x.after s).interpreter.TextDone := by
  rw [← List.append_nil s, textless_append] at h
  exact h.2

/-- While something else is in progress, no run of text comes into being. -/
theorem textless_cons {c : Char} {s : List Char} (h : x.interpreter.TextDone)
    (hready : x.interpreter.state ≠ .ready)
    (hrest : (x.tick c).interpreter.TextDone → (x.tick c).Textless s) : x.Textless (c :: s) :=
  ⟨h, hrest (textDone_tick hready h c)⟩

/-- Being free of text does not depend on the events noted. -/
theorem Same.textless {y : Progress σ κ} (h : x.Same y) {s : List Char} (hs : y.Textless s) :
    x.Textless s := by
  induction s generalizing x y with
  | nil =>
    rw [Textless, h.interpreter]
    exact hs
  | cons c s ih =>
    have hdone : x.interpreter.TextDone := h.interpreter ▸ hs.1
    exact ⟨hdone, ih (h.after hdone [c]) hs.2⟩

/-- Without any text, `s` leads from `x` to `y`. -/
structure LeadsTo (x : Progress σ κ) (s : List Char) (y : Progress σ κ) : Prop where
  textless : x.Textless s
  same : (x.after s).Same y

namespace LeadsTo

variable {y z : Progress σ κ} {s t : List Char}

theorem of_textless (h : x.Textless s) : x.LeadsTo s (x.after s) := ⟨h, .refl _⟩

/-- Where a single character leads. -/
theorem single (hdone : x.interpreter.TextDone) (hy : y.interpreter.TextDone) {c : Char}
    (h : (x.tick c).Same y) : x.LeadsTo [c] y := by
  refine ⟨⟨hdone, ?_⟩, h⟩
  rw [Textless, h.interpreter]
  exact hy

theorem textDone (h : x.LeadsTo s y) : y.interpreter.TextDone :=
  h.same.interpreter ▸ h.textless.after

theorem trans_same (h : x.LeadsTo s y) (h' : y.Same z) : x.LeadsTo s z :=
  ⟨h.textless, h.same.trans h'⟩

theorem append (h : x.LeadsTo s y) (h' : y.LeadsTo t z) : x.LeadsTo (s ++ t) z := by
  refine ⟨textless_append.mpr ⟨h.textless, h.same.textless h'.textless⟩, ?_⟩
  rw [after_append]
  exact (h.same.after h.textless.after t).trans h'.same

end LeadsTo

/-! ### With nothing in progress -/

section Ready

variable (hdone : x.interpreter.TextDone) (hready : x.interpreter.state = .ready)
include hdone hready

theorem tick_of_ready (c : Char) : x.tick c = x.begin c := by
  rw [tick, hready]
  exact congrArg (begin · c) (settleBefore_of_textDone hdone _)

/-- A character that does nothing but open something leads there. -/
theorem leadsTo_single {c : Char} {state : Interpreter.State}
    (hstate : state ≠ .text) (hbegin : x.begin c = x.withState state) :
    x.LeadsTo [c] (x.withState state) := by
  apply LeadsTo.single
  · exact hdone
  · exact ⟨hstate, hdone.textRun⟩
  · rw [tick_of_ready hdone hready, hbegin]
    exact .refl _

/-- ESC and another character are an escape sequence, or the beginning of one. -/
theorem leadsTo_esc_of_ready (c : Char) : x.LeadsTo [ControlChar.esc, c] (x.tickEscape c) := by
  have hesc : x.LeadsTo [ControlChar.esc] (x.withState .escape) :=
    leadsTo_single hdone hready (by simp) rfl
  have htick : (x.withState .escape).LeadsTo [c] (x.tickEscape c) :=
    .single hesc.textDone (textDone_tickEscape hdone.textRun c) (.refl _)
  exact hesc.append htick

end Ready

/-- An escape sequence of one character that does nothing but open something leads there. -/
theorem leadsTo_opener (hidle : x.interpreter.Idle) {c : Char} {state : Interpreter.State}
    (h : EscapeSequence.initial.process c x.context = ⟨state, .initial, x.context⟩) :
    x.LeadsTo [ControlChar.esc, c] (x.withState state) := by
  have htick : x.tickEscape c = x.withState state := by
    simp only [tickEscape, withState, hidle.clear.escape, h]
  rw [← htick]
  exact leadsTo_esc_of_ready hidle.textDone hidle.ready c

/-! ### Beginnings that meet -/

/-- Without any text, two beginnings lead to the same point. -/
structure MeetAfter (x : Progress σ κ) (a b : List Char) : Prop where
  left : x.Textless a
  right : x.Textless b
  same : (x.after a).Same (x.after b)

theorem LeadsTo.meetAfter {y : Progress σ κ} {a b : List Char} (h : x.LeadsTo a y)
    (h' : x.LeadsTo b y) : x.MeetAfter a b :=
  ⟨h.textless, h'.textless, h.same.trans h'.same.symm⟩

end Progress

/-! ### Deliveries -/

namespace Terminal

section SameBesideScreen

variable {σ κ : Type} {t u v : Terminal σ κ}

theorem SameBesideScreen.trans (h : t.SameBesideScreen u) (h' : u.SameBesideScreen v) :
    t.SameBesideScreen v where
  input := h.input.trans h'.input
  interpreter := h.interpreter.trans h'.interpreter
  store := h.store.trans h'.store
  clipboard := h.clipboard.trans h'.clipboard
  replies := h.replies.trans h'.replies
  settings := h.settings.trans h'.settings

/-- Terminals at rest are equal if they are at the same point. -/
theorem AtRest.eq_of_same (ht : t.AtRest) (hu : u.AtRest) (h : t.progress.Same u.progress) :
    t = u := by
  obtain ⟨input, interpreter, host⟩ := t
  obtain ⟨input', interpreter', host'⟩ := u
  cases ht.input
  cases hu.input
  cases show interpreter = interpreter' from h.interpreter
  cases show host = host' from h.host
  rfl

end SameBesideScreen

variable {σ κ : Type} [Screen σ] [Clipboard κ] {t : Terminal σ κ} {x : Progress σ κ}

theorem same_write (h : t.AtRest) (hx : t.progress.Same x) (s : List Char) :
    (t.write s).progress.Same (x.after s).settle := by
  have hsame := hx.settle_after h.textDone s
  rw [write_eq h]
  exact ⟨hsame.interpreter, hsame.host⟩

/-- Without text, the division of a stream makes no difference at all. -/
theorem same_writeAll (h : t.AtRest) (hx : t.progress.Same x) {pieces : List (List Char)}
    (htextless : x.Textless pieces.flatten) :
    (t.writeAll pieces).progress.Same (x.after pieces.flatten) := by
  induction pieces generalizing t x with
  | nil => exact hx
  | cons s pieces ih =>
    rw [List.flatten_cons, Progress.textless_append] at htextless
    obtain ⟨hs, hpieces⟩ := htextless
    have hwrite := same_write h hx s
    rw [Progress.settle_of_textDone hs.after] at hwrite
    rw [List.flatten_cons, Progress.after_append]
    exact ih (h.write s) hwrite hpieces

/-- Without text, deliveries leave what the characters lead to. -/
theorem AtRest.writeAll_of_leadsTo (h : t.AtRest) {pieces : List (List Char)}
    (hleads : t.progress.LeadsTo pieces.flatten x) :
    t.writeAll pieces = ⟨t.input, x.interpreter, x.context.toHost⟩ := by
  have hsame := (same_writeAll h (.refl _) hleads.textless).trans hleads.same
  have hinput : (t.writeAll pieces).input = t.input :=
    (h.writeAll pieces).input.trans h.input.symm
  have hinterpreter : (t.writeAll pieces).interpreter = x.interpreter := hsame.interpreter
  have hhost : (t.writeAll pieces).host = x.context.toHost := hsame.host
  rw [← hinput, ← hinterpreter, ← hhost]

/-- Streams without text that lead to the same point leave the same terminal, however they are
divided. -/
theorem AtRest.writeAll_eq_writeAll (h : t.AtRest) {pieces more : List (List Char)}
    (hmeet : t.progress.MeetAfter pieces.flatten more.flatten) :
    t.writeAll pieces = t.writeAll more := by
  have hleft := same_writeAll h (.refl _) hmeet.left
  have hright := same_writeAll h (.refl _) hmeet.right
  exact (h.writeAll pieces).eq_of_same (h.writeAll more)
    ((hleft.trans hmeet.same).trans hright.symm)

/-- A stream without text that leads back to the same point changes nothing. -/
theorem AtRest.writeAll_eq_self (h : t.AtRest) {pieces : List (List Char)}
    (hmeet : t.progress.MeetAfter pieces.flatten []) : t.writeAll pieces = t :=
  have hnothing : t.writeAll pieces = t.writeAll [] := h.writeAll_eq_writeAll hmeet
  hnothing

/-- However they are divided, two streams have the same effect on a terminal and make the same calls
to its screen. -/
structure SameEffect (t : Terminal σ κ) (a b : List Char) : Prop where
  eq : ∀ {pieces more : List (List Char)}, pieces.flatten = a → more.flatten = b →
    t.writeAll pieces = t.writeAll more
  calls : ∀ {pieces more : List (List Char)}, pieces.flatten = a → more.flatten = b →
    t.calls pieces = t.calls more

/-- Streams that lead to the same point whenever nothing is in progress have the same effect. -/
theorem AtRest.sameEffect (h : t.AtRest) (hready : t.state = .ready) {a b : List Char}
    (hmeet : ∀ {σ : Type} [Screen σ] {x : Progress σ κ}, x.interpreter.Idle → x.MeetAfter a b) :
    t.SameEffect a b where
  eq := by
    rintro pieces more rfl rfl
    exact h.writeAll_eq_writeAll (hmeet (h.idle hready))
  calls := by
    rintro pieces more rfl rfl
    exact congrArg (·.screen.calls.toList)
      (h.onTranscript.writeAll_eq_writeAll (hmeet (h.idle hready)))

/-- Whichever of two beginnings a stream has, a terminal goes on alike. -/
structure Interchangeable (t : Terminal σ κ) (a b : List Char) : Prop where
  /-- If what follows is divided in the same places, the terminals are equal. `mid` and `mid'` are
  the parts of the beginnings that are delivered together with something that follows. -/
  eq : ∀ {front front' : List (List Char)} {mid mid' : List Char} (s : List Char)
    (rest : List (List Char)), front.flatten ++ mid = a → front'.flatten ++ mid' = b →
      t.writeAll (front ++ (mid ++ s) :: rest) = t.writeAll (front' ++ (mid' ++ s) :: rest)
  /-- If what follows is divided in other places, this makes no difference but for the text written
  last and the screens. -/
  sameBesideScreen : ∀ {pieces more : List (List Char)} {s : List Char},
    pieces.flatten = a ++ s → more.flatten = b ++ s →
      (t.writeAll pieces).SameBesideScreen (t.writeAll more)
  /-- The calls made to the screens come to the same. -/
  calls : ∀ {pieces more : List (List Char)} {s : List Char},
    pieces.flatten = a ++ s → more.flatten = b ++ s →
      joinWrites (t.calls pieces) = joinWrites (t.calls more)

/-- The delivery that brings the last of a beginning and the first of what follows ends where that
leads to from where the beginning leads. -/
theorem AtRest.same_delivery (h : t.AtRest) {front : List (List Char)} {mid : List Char}
    (hleads : t.progress.LeadsTo (front.flatten ++ mid) x) (s : List Char) :
    ((t.writeAll front).write (mid ++ s)).progress.Same (x.after s).settle := by
  obtain ⟨htextless, hsame⟩ := hleads
  have hsettle := hsame.settle_after htextless.after s
  rw [Progress.textless_append] at htextless
  have hfront := same_writeAll h (.refl _) htextless.1
  have hwrite := same_write (h.writeAll front) hfront (mid ++ s)
  rw [Progress.after_append, ← Progress.after_append _ front.flatten] at hwrite
  exact hwrite.trans hsettle

/-- What follows in the same delivery is interpreted from where the characters before it lead. -/
theorem AtRest.writeAll_continued (h : t.AtRest) {pieces front : List (List Char)}
    {mid : List Char} (hpieces : pieces.flatten = front.flatten ++ mid)
    (hleads : t.progress.LeadsTo pieces.flatten x) (s : List Char) (rest : List (List Char)) :
    t.writeAll (front ++ (mid ++ s) :: rest) = (t.writeAll pieces).writeAll (s :: rest) := by
  have hwhole := (same_writeAll h (.refl _) hleads.textless).trans hleads.same
  have hright := same_write (h.writeAll pieces) hwhole s
  rw [hpieces] at hleads
  have hleft := h.same_delivery hleads s
  have hwrite := ((h.writeAll front).write (mid ++ s)).eq_of_same ((h.writeAll pieces).write s)
    (hleft.trans hright.symm)
  rw [writeAll_append]
  exact congrArg (fun u : Terminal σ κ => u.writeAll rest) hwrite

/-- After beginnings that lead to the same point, what follows is interpreted alike. -/
theorem AtRest.writeAll_eq_of_meetAfter (h : t.AtRest) {a b : List Char}
    (hmeet : t.progress.MeetAfter a b) {front front' : List (List Char)} {mid mid' : List Char}
    (s : List Char) (rest : List (List Char)) (ha : front.flatten ++ mid = a)
    (hb : front'.flatten ++ mid' = b) :
    t.writeAll (front ++ (mid ++ s) :: rest) = t.writeAll (front' ++ (mid' ++ s) :: rest) := by
  subst ha hb
  have hleft := h.same_delivery ⟨hmeet.left, hmeet.same⟩ s
  have hright := h.same_delivery (.of_textless hmeet.right) s
  have hwrite := ((h.writeAll front).write _).eq_of_same ((h.writeAll front').write _)
    (hleft.trans hright.symm)
  rw [writeAll_append, writeAll_append]
  exact congrArg (fun u : Terminal σ κ => u.writeAll rest) hwrite

/-- The case of one piece that brings a beginning and all that follows. -/
theorem AtRest.writeAll_singleton_eq_of_meetAfter (h : t.AtRest) {a b : List Char}
    (hmeet : t.progress.MeetAfter a b) (s : List Char) :
    t.writeAll [a ++ s] = t.writeAll [b ++ s] := by
  have hnone : ∀ c : List Char, ([] : List (List Char)).flatten ++ c = c := fun _ => rfl
  exact h.writeAll_eq_of_meetAfter hmeet s [] (hnone a) (hnone b)

/-- Beginnings that lead to the same point are interchangeable. -/
theorem AtRest.interchangeable_of_meetAfter (h : t.AtRest) {a b : List Char}
    (hmeet : t.progress.MeetAfter a b) (htranscript : t.onTranscript.progress.MeetAfter a b) :
    t.Interchangeable a b where
  eq := h.writeAll_eq_of_meetAfter hmeet
  sameBesideScreen := by
    intro pieces more s hpieces hmore
    have heq := h.writeAll_singleton_eq_of_meetAfter hmeet s
    have hleft := sameBesideScreen_of_flatten_eq h (hpieces.trans List.flatten_singleton.symm)
    have hright := sameBesideScreen_of_flatten_eq h (List.flatten_singleton.trans hmore.symm)
    rw [heq] at hleft
    exact hleft.1.trans hright.1
  calls := by
    intro pieces more s hpieces hmore
    have hwrite := h.onTranscript.writeAll_singleton_eq_of_meetAfter htranscript s
    have heq : t.calls [a ++ s] = t.calls [b ++ s] := congrArg (·.screen.calls.toList) hwrite
    have hleft := sameBesideScreen_of_flatten_eq h (hpieces.trans List.flatten_singleton.symm)
    have hright := sameBesideScreen_of_flatten_eq h (List.flatten_singleton.trans hmore.symm)
    rw [hleft.2, heq, hright.2]

/-- Beginnings that lead to the same point whenever nothing is in progress are interchangeable. -/
theorem AtRest.interchangeable (h : t.AtRest) (hready : t.state = .ready) {a b : List Char}
    (hmeet : ∀ {σ : Type} [Screen σ] {x : Progress σ κ}, x.interpreter.Idle → x.MeetAfter a b) :
    t.Interchangeable a b := by
  have hidle := h.idle hready
  exact h.interchangeable_of_meetAfter (hmeet hidle) (hmeet hidle)

end Terminal

end ControlStream
