import ControlStream.Proofs.Actions
import ControlStream.Proofs.Output
import ControlStream.Proofs.Strings

/-!
# The full reset

ESC and a backslash bring a terminal out of whatever is in progress, and ESC and `c` then bring back
what the stream has changed. From there on a terminal goes on like a new one. What remains of the
past is the working directory, the text written last, and what is on the screen and on the
clipboard.

## Main definitions

* `Value.Fits`, `Store.Regular`: the values that interpretation stores.
* `Store.outlasting`: the names whose values outlast a full reset.

## Main statements

* `Store.Regular.fullReset`: a store is as good as new after a full reset.
* `Progress.state_after_backslash`: ESC and a backslash end whatever is in progress.
* `Terminal.Driven.fullReset_as_new`: after a full reset a terminal goes on like a new one.
-/

namespace ControlStream

open ControlChar

/-! ### Regular stores -/

def textNames : List String :=
  [Key.windowTitle.name, Key.iconTitle.name, Key.workdir.name, Key.written.name]

def flagNames : List String :=
  [Key.insertMode.name, Key.cursorVisible.name, Key.applicationKeypad.name]

/-- A value is one that interpretation may store under a name. -/
def Value.Fits (name : String) : Value → Prop
  | text _ => name ∈ textNames
  | flag _ => name ∈ flagNames
  | graphicSet _ => name = Key.graphicSet.name
  | number _ => False

/-- A key reads every value that may be stored under its name. -/
def Key.Reads {α : Type} [Storable α] (k : Key α) : Prop :=
  ∀ value : Value, value.Fits k.name → (Storable.ofValue? value : Option α).isSome

theorem not_mem_flagNames {name : String} (h : name ∈ textNames) : name ∉ flagNames := by
  have hdisjoint : ∀ name ∈ textNames, name ∉ flagNames := by decide
  exact hdisjoint name h

theorem ne_graphicSet {name : String} (h : name ∈ textNames ∨ name ∈ flagNames) :
    name ≠ Key.graphicSet.name := by
  rintro rfl
  have hneither : ¬ (Key.graphicSet.name ∈ textNames ∨ Key.graphicSet.name ∈ flagNames) := by decide
  exact hneither h

theorem Key.reads_text {k : Key String} (hk : k.name ∈ textNames) : k.Reads := by
  intro value hvalue
  cases value with
  | text s => rfl
  | flag b => exact absurd hvalue (not_mem_flagNames hk)
  | number n => exact hvalue.elim
  | graphicSet g => exact absurd hvalue (ne_graphicSet (.inl hk))

theorem Key.reads_flag {k : Key Bool} (hk : k.name ∈ flagNames) : k.Reads := by
  intro value hvalue
  cases value with
  | text s => exact absurd hk (not_mem_flagNames hvalue)
  | flag b => rfl
  | number n => exact hvalue.elim
  | graphicSet g => exact absurd hvalue (ne_graphicSet (.inr hk))

theorem Key.reads_graphicSet : graphicSet.Reads := by
  intro value hvalue
  cases value with
  | text s => exact absurd rfl (ne_graphicSet (.inl hvalue))
  | flag b => exact absurd rfl (ne_graphicSet (.inr hvalue))
  | number n => exact hvalue.elim
  | graphicSet g => rfl

namespace Store

/-- Every value is one that interpretation may store, and the palette still has the colors it was
made with. -/
structure Regular (initial : ColorTable) (s : Store) : Prop where
  fits : ∀ (name : String) (value : Value), s.entries[name]? = some value → value.Fits name
  initial_eq : s.palette.initial = initial

/-- The names whose values outlast a full reset. -/
def outlasting (name : String) : Prop := name = Key.workdir.name ∨ name = Key.written.name

namespace Regular

variable {initial : ColorTable} {s : Store} {α : Type} [Storable α]

theorem set (h : s.Regular initial) {k : Key α} {a : α}
    (ha : (Storable.toValue a).Fits k.name) : (s.set k a).Regular initial := by
  refine ⟨fun name value hvalue => ?_, h.initial_eq⟩
  simp only [Store.set, Std.ExtTreeMap.getElem?_insert] at hvalue
  split at hvalue
  · rename_i hname
    rw [Std.LawfulEqCmp.compare_eq_iff_eq] at hname
    cases hvalue
    exact hname ▸ ha
  · exact h.fits name value hvalue

theorem modifyPalette (h : s.Regular initial) {f : Palette → Palette}
    (hf : ∀ p : Palette, (f p).initial = p.initial) : (s.modifyPalette f).Regular initial :=
  ⟨h.fits, (hf s.palette).trans h.initial_eq⟩

/-- From a regular store a value is always taken away. -/
theorem entries_remove (h : s.Regular initial) {k : Key α} (hk : k.Reads) (name : String) :
    (s.remove k).entries[name]? = if k.name = name then none else s.entries[name]? := by
  unfold Store.remove
  split
  · simp [Std.ExtTreeMap.getElem?_erase]
  · rename_i hmissing
    split
    · rename_i hname
      subst hname
      cases hvalue : s.entries[k.name]? with
      | none => rfl
      | some value =>
        have hread := hk value (h.fits k.name value hvalue)
        simp only [contains, get?, hvalue, Option.bind_some] at hmissing
        exact absurd hread hmissing
    · rfl

theorem remove (h : s.Regular initial) {k : Key α} (hk : k.Reads) :
    (s.remove k).Regular initial := by
  refine ⟨fun name value hvalue => ?_, ?_⟩
  · rw [h.entries_remove hk] at hvalue
    split at hvalue
    · cases hvalue
    · exact h.fits name value hvalue
  · unfold Store.remove
    split <;> exact h.initial_eq

/-- A full reset takes away all values but two, and brings back the palette. -/
theorem fullReset (h : s.Regular initial) :
    s.fullReset.Regular initial ∧
      s.fullReset.AgreeExcept outlasting (.ofPalette ⟨initial, initial⟩) := by
  have hset := Key.reads_graphicSet
  have hinsert : Key.insertMode.Reads := Key.reads_flag (by decide)
  have hcursor : Key.cursorVisible.Reads := Key.reads_flag (by decide)
  have hkeypad : Key.applicationKeypad.Reads := Key.reads_flag (by decide)
  have hwindow : Key.windowTitle.Reads := Key.reads_text (by decide)
  have hicon : Key.iconTitle.Reads := Key.reads_text (by decide)
  have h₁ := h.remove hset
  have h₂ := h₁.remove hinsert
  have h₃ := h₂.remove hcursor
  have h₄ := h₃.remove hkeypad
  have h₅ := h₄.remove hwindow
  have h₆ := h₅.remove hicon
  refine ⟨h₆.modifyPalette fun _ => rfl, fun name hname => ?_, ?_⟩
  · have hnone : (Store.ofPalette ⟨initial, initial⟩).entries[name]? = none := by simp [ofPalette]
    have hentries : s.fullReset.entries[name]? = _ := h₅.entries_remove hicon name
    rw [hentries, h₄.entries_remove hwindow, h₃.entries_remove hkeypad, h₂.entries_remove hcursor,
      h₁.entries_remove hinsert, h.entries_remove hset, hnone]
    iterate 6 (split; · rfl)
    rename_i hicon hwindow hkeypad hcursor hinsert hset
    -- No other name has a value but those that outlast the reset.
    cases hvalue : s.entries[name]? with
    | none => rfl
    | some value =>
      exfalso
      have hfits := h.fits name value hvalue
      cases value with
      | text text =>
        simp only [Value.Fits, textNames, List.mem_cons, List.not_mem_nil, or_false] at hfits
        rcases hfits with rfl | rfl | rfl | rfl
        · exact hwindow rfl
        · exact hicon rfl
        · exact hname (.inl rfl)
        · exact hname (.inr rfl)
      | flag enabled =>
        simp only [Value.Fits, flagNames, List.mem_cons, List.not_mem_nil, or_false] at hfits
        rcases hfits with rfl | rfl | rfl
        · exact hinsert rfl
        · exact hcursor rfl
        · exact hkeypad rfl
      | graphicSet set => exact hset hfits.symm
      | number n => exact hfits
  · have hpalette : s.fullReset.palette = _ := Palette.reset_eq _
    rw [hpalette, h₆.initial_eq]
    rfl

end Regular

end Store

theorem ColorChange.initial_on (change : ColorChange) (p : Palette) :
    (change.on p).initial = p.initial := by
  cases change with
  | setIndexed i c => rfl
  | setDefault which c => cases which <;> rfl
  | resetIndexed i => rfl
  | resetAllIndexed => rfl
  | resetDefault which => cases which <;> rfl

/-- Every action leaves a store regular. -/
theorem Action.regular_on {σ κ : Type} [Screen σ] [Clipboard κ] {initial : ColorTable}
    (action : Action) {a : Host σ κ} (h : a.store.Regular initial) :
    (action.on a).store.Regular initial := by
  cases action with
  | windowTitle text => exact h.set (show _ ∈ textNames by decide)
  | iconTitle text => exact h.set (show _ ∈ textNames by decide)
  | workdir text => exact h.set (show _ ∈ textNames by decide)
  | applicationKeypad enabled => exact h.set (show _ ∈ flagNames by decide)
  | cursorVisible enabled => exact h.set (show _ ∈ flagNames by decide)
  | insertMode enabled => exact h.set (show _ ∈ flagNames by decide)
  | graphic change => exact h.set rfl
  | color change => exact h.modifyPalette change.initial_on
  | answer query => exact h
  | copy text => exact h
  | write text => exact h.set (show _ ∈ textNames by decide)
  | control c => exact h
  | fullReset => exact h.fullReset.1

theorem Store.regular_ofPalette (initial : ColorTable) :
    (Store.ofPalette ⟨initial, initial⟩).Regular initial :=
  ⟨fun name value hvalue => by simp [ofPalette] at hvalue, rfl⟩

theorem Terminal.Driven.regular {σ κ : Type} [Screen σ] [Clipboard κ] {settings : Settings}
    {t : Terminal σ κ} (h : t.Driven settings) :
    t.store.Regular settings.colors.toPalette.initial :=
  h.store_invariant (fun action _ ha => action.regular_on ha) (Store.regular_ofPalette _)

/-! ### Out of whatever is in progress -/

namespace Progress

variable {σ κ : Type} [Screen σ] [Clipboard κ] {x : Progress σ κ} {limit : Nat}

omit [Screen σ] [Clipboard κ] in
/-- A string that is read has not ended, and it waits for its end if its payload is not being
collected. -/
theorem stage_stringPayload (htidy : x.interpreter.Tidy limit) :
    x.stringPayload.stage = .collecting ∨ x.stringPayload.stage = .escaped := by
  have hopen : ∀ {limit : Nat} {p : Payload}, p.Within limit →
      p.stage = .collecting ∨ p.stage = .escaped := by
    intro limit p h
    rw [Payload.stage_eq_collecting_iff, Payload.stage_eq_escaped_iff]
    simp [h.isComplete, h.interrupt]
  unfold stringPayload
  split
  · exact hopen htidy.payload
  · exact hopen htidy.skippedPayload

/-- After ESC either an escape sequence has begun or a string waits for its end. -/
theorem tick_esc_cases (hdone : x.interpreter.TextDone) (htidy : x.interpreter.Tidy limit) :
    ((x.tick esc).interpreter.state = .escape ∧ (x.tick esc).interpreter.escape = .initial) ∨
      (x.tick esc).ReadsString .escaped := by
  have hstring : x.interpreter.state.isString = true →
      ((x.tick esc).interpreter.state = .escape ∧ (x.tick esc).interpreter.escape = .initial) ∨
        (x.tick esc).ReadsString .escaped := by
    intro hstring
    rcases stage_stringPayload htidy with hstage | hstage
    · exact .inr (ReadsString.tick_esc ⟨hstring, hstage⟩).1
    · have hsame := ReadsString.tick_of_escaped ⟨hstring, hstage⟩ hdone esc
      have hnext : (if esc = '\\' then none else some esc) = some esc := rfl
      rw [hnext] at hsame
      rw [hsame.interpreter]
      exact .inl ⟨rfl, rfl⟩
  cases hstate : x.interpreter.state with
  | ready =>
    rw [tick_of_ready hdone hstate]
    exact .inl ⟨rfl, htidy.escape.resolve_left (by simp [hstate])⟩
  | text => exact absurd hstate hdone.state
  | escape =>
    rw [tick, hstate]
    exact .inl ⟨rfl, rfl⟩
  | control =>
    rw [tick, hstate]
    exact .inl ⟨rfl, htidy.escape.resolve_left (by simp [hstate])⟩
  | command => exact hstring (by rw [hstate]; rfl)
  | skipped => exact hstring (by rw [hstate]; rfl)

theorem textDone_tick_esc (hdone : x.interpreter.TextDone) :
    (x.tick esc).interpreter.TextDone := by
  by_cases hready : x.interpreter.state = .ready
  · rw [tick_of_ready hdone hready]
    exact ⟨nofun, hdone.textRun⟩
  · exact textDone_tick hready hdone esc

/-- ESC and a backslash end whatever is in progress. -/
theorem state_after_backslash (hdone : x.interpreter.TextDone) (htidy : x.interpreter.Tidy limit) :
    x.Textless [esc, '\\'] ∧ (x.after [esc, '\\']).interpreter.state = .ready := by
  have hesc := textDone_tick_esc hdone
  rw [after_cons, after_cons, after_nil]
  rcases tick_esc_cases hdone htidy with ⟨hstate, hescape⟩ | hstring
  · refine ⟨⟨hdone, hesc, textDone_tick (by simp [hstate]) hesc _⟩, ?_⟩
    rw [tick, hstate]
    simp only [tickEscape, hescape]
    rfl
  · refine ⟨⟨hdone, hesc, textDone_tick hstring.ne_ready hesc _⟩, ?_⟩
    have hsame := hstring.tick_of_escaped hesc '\\'
    rw [hsame.interpreter]
    rfl

/-- ESC and a backslash and ESC and `c` lead to a full reset of what is there after the first two
of them, with nothing in progress. -/
theorem leadsTo_fullReset (hdone : x.interpreter.TextDone)
    (htidy : x.interpreter.Tidy x.context.settings.payloadLimit) :
    (x.after [esc, '\\']).interpreter.Idle ∧
      x.LeadsTo [esc, '\\', esc, 'c'] ⟨(x.after [esc, '\\']).interpreter,
        (x.after [esc, '\\']).context.fullReset⟩ := by
  obtain ⟨htextless, hready⟩ := state_after_backslash hdone htidy
  have htidy' := tidy_after (alike_ofSettings hdone) htidy [esc, '\\']
  generalize hy : x.after [esc, '\\'] = y at hready htidy' ⊢
  have hleads : x.LeadsTo [esc, '\\'] y := hy ▸ .of_textless htextless
  have hidle : y.interpreter.Idle := ⟨hready, hleads.textDone.textRun, htidy'.clear (.inl hready)⟩
  have htick : y.tickEscape 'c' = ⟨y.interpreter, y.context.fullReset⟩ := by
    have hprocess : EscapeSequence.initial.process 'c' y.context =
        ⟨.ready, .initial, y.context.fullReset⟩ := rfl
    simp only [tickEscape, hidle.clear.escape, hprocess]
    rw [← hready, ← hidle.clear.escape]
  refine ⟨hidle, ?_⟩
  rw [← htick]
  exact hleads.append (leadsTo_esc_of_ready hidle.textDone hready 'c')

end Progress

/-! ### Terminals after a full reset -/

theorem Store.graphicSet_not_outlasting : ¬ Store.outlasting Key.graphicSet.name := by
  unfold Store.outlasting
  decide

theorem Store.insertMode_not_outlasting : ¬ Store.outlasting Key.insertMode.name := by
  unfold Store.outlasting
  decide

/-- What hosts have in common that differ only in what outlasts a full reset. -/
def Likeness.reset (σ κ : Type) [Screen σ] [Clipboard κ] (settings : Settings) :
    Likeness σ σ κ κ :=
  .ofScreens κ settings Store.outlasting Eq Store.graphicSet_not_outlasting
    Store.insertMode_not_outlasting Call.on_congr

namespace Terminal

variable {σ κ : Type}

/-- With nothing in progress an interpreter is like a new one, but for a limit noted. -/
theorem AtRest.withLimit_fresh {t : Terminal σ κ} (h : t.AtRest) (hready : t.state = .ready)
    (n : Nat) : t.withLimit n = t.fresh.withLimit n := by
  rw [← withLimit_reset h n, reset_of_ready h hready]

variable [Screen σ] [Clipboard κ]

theorem AtRest.writeAll_fullReset {t : Terminal σ κ} (h : t.AtRest) {pieces : List (List Char)}
    (hpieces : pieces.flatten = [esc, '\\', esc, 'c']) :
    (t.writeAll pieces).state = .ready ∧
      ∃ a : Host σ κ, t.host.Leads a ∧ (t.writeAll pieces).host = Action.fullReset.on a := by
  obtain ⟨hidle, hleads⟩ := Progress.leadsTo_fullReset (x := t.progress) h.textDone h.tidy
  rw [← hpieces] at hleads
  have hsame := (same_writeAll h (.refl _) hleads.textless).trans hleads.same
  refine ⟨?_, (t.progress.after [esc, '\\']).context.toHost, t.progress.leads_after _, hsame.host⟩
  have hstate := congrArg Interpreter.state hsame.interpreter
  exact hstate.trans hidle.ready

/-- After a full reset the store is as in a new terminal, but for what outlasts it. -/
theorem Driven.store_fullReset {settings : Settings} {t : Terminal σ κ} (h : t.Driven settings)
    {pieces : List (List Char)} (hpieces : pieces.flatten = [esc, '\\', esc, 'c']) :
    (t.writeAll pieces).store.AgreeExcept Store.outlasting (.ofPalette settings.colors.toPalette) ∧
      (t.writeAll pieces).host.settings = settings := by
  obtain ⟨-, a, hleads, hhost⟩ := h.atRest.writeAll_fullReset hpieces
  have hregular :=
    hleads.invariant (P := fun a => a.store.Regular settings.colors.toPalette.initial)
      (fun action _ ha => action.regular_on ha) h.regular
  rw [store, hhost]
  exact ⟨hregular.fullReset.2, hleads.settings_eq.trans h.settings_eq⟩

/-- A terminal is written ESC and a backslash and ESC and `c`, whatever was delivered to it before
and whatever is in progress. From then on all that is delivered to it, in whatever pieces, has the
output that it has on a new terminal with the same settings; the interpreters are at the same point
and the stores have the same values, but for the working directory and the text written last. -/
theorem Driven.fullReset_as_new {τ μ : Type} [Screen τ] [Clipboard μ] {settings : Settings}
    {t : Terminal σ κ} (h : t.Driven settings) {reset : List (List Char)}
    (hreset : reset.flatten = [esc, '\\', esc, 'c']) (screen : τ) (clipboard : μ)
    (pieces : List (List Char)) :
    let s := t.writeAll reset
    let u := Terminal.onScreen screen clipboard settings
    s.output pieces = u.output pieces ∧
      s.host.Receives (s.output pieces) (s.writeAll pieces).host ∧
      u.host.Receives (u.output pieces) (u.writeAll pieces).host ∧
      (s.writeAll pieces).state = (u.writeAll pieces).state ∧
      (s.writeAll pieces).interpreter.withLimit 0 = (u.writeAll pieces).interpreter.withLimit 0 ∧
      (s.writeAll pieces).store.AgreeExcept Store.outlasting (u.writeAll pieces).store := by
  intro s u
  have hs : s.AtRest := h.atRest.writeAll reset
  have hu : u.AtRest := (Reachable.onScreen screen clipboard settings).atRest
  have hready : s.state = .ready := (h.atRest.writeAll_fullReset hreset).1
  obtain ⟨hstore, hsettings⟩ := h.store_fullReset hreset
  have hstart : (Likeness.reset Transcript Copies settings).Terminals s.recorded.fresh u.recorded :=
    ⟨atRest_fresh _, hu.recorded, rfl, ⟨hstore, rfl, rfl, rfl, hsettings, rfl⟩⟩
  -- Made to remember, the two differ in what outlasts the reset, and in the limit that a payload
  -- noted when it was opened last.
  have hlike := hstart.writeAll pieces
  have hfresh := writeAll_withLimit hs.recorded (atRest_fresh _)
    (hs.recorded.withLimit_fresh hready 0) pieces
  obtain ⟨-, hinterpreter, hhost⟩ := Terminal.mk.inj hfresh
  obtain ⟨hinterpreter_s, hstore_s⟩ := hs.writeAll_recorded pieces
  obtain ⟨hinterpreter_u, hstore_u⟩ := hu.writeAll_recorded pieces
  have hpoint : (s.writeAll pieces).interpreter.withLimit 0 =
      (u.writeAll pieces).interpreter.withLimit 0 := by
    rw [← hinterpreter_s, ← hinterpreter_u, hinterpreter, hlike.interpreter]
  refine ⟨?_, hs.receives_output pieces, hu.receives_output pieces, congrArg (·.state) hpoint,
    hpoint, ?_⟩
  · rw [output, output, hhost, Host.output, Host.output, hlike.host.screen, hlike.host.clipboard,
      hlike.host.replies]
  · rw [← hstore_s, ← hstore_u, store, hhost]
    exact hlike.host.store

/-- A terminal in the middle of a title, in insert mode and with line drawing characters, beside a
new one on a narrower page. -/
theorem fullReset_as_new_title :
    let t := (onPage (.empty 80) .standard).write "\x1b(0\x1b[4h\x1b]0;title\x1b".toList
    let s := t.writeAll ["\x1b".toList, "\\\x1bc".toList]
    let u := onPage (.empty 40) .standard
    t.Driven .standard ∧ t.state = .command ∧ t.insertMode = true ∧
      s.output ["qq".toList] = u.output ["qq".toList] ∧
      (u.output ["qq".toList]).calls = [.write "qq"] := by
  intro t s u
  have hstart : (onPage (.empty 80) .standard).Driven .standard := .onScreen _ _
  have hdriven : t.Driven .standard := hstart.write _
  have hu : u.AtRest := (Reachable.onScreen _ _ _).atRest
  have hreset : ["\x1b".toList, "\\\x1bc".toList].flatten = [esc, '\\', esc, 'c'] := rfl
  have hnew := hdriven.fullReset_as_new hreset (Page.empty 40) MemoryClipboard.empty ["qq".toList]
  have ht : t = _ := write_eq hstart.atRest _
  refine ⟨hdriven, ?_, ?_, hnew.1, ?_⟩
  · rw [ht]
    rfl
  · rw [ht]
    rfl
  · rw [output, writeAll, List.foldl_cons, List.foldl_nil, write_eq hu.recorded]
    rfl

end Terminal

end ControlStream
