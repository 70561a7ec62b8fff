import ControlStream.Proofs.Interchange

/-!
# Strings

A command or a skipped string may be opened in several ways and ended in several ways, and it may be
interrupted by an escape sequence. None of this matters to what follows, and a skipped string does
not matter at all.

## Main definitions

* `commandIntroducers`, `skippedIntroducers`, `stringTerminators`: the ways to open and to end one.
* `IsPayload`: characters that leave a string open.
* `SameCommand`: spellings of a command with the same payload.
* `Progress.endString`: what is left once the string that is read has ended.

## Main statements

* `Progress.ReadsString.tick_of_escaped`: what ESC and another character do to a string.
* `Terminal.Reachable.command_interchangeable`: the spellings of a command are interchangeable.
* `Terminal.Reachable.skipped_transparent`: a skipped string changes nothing.
-/

namespace ControlStream

open ControlChar

def commandIntroducers : List (List Char) := [[esc, ']'], [osc]]

def skippedIntroducers : List (List Char) :=
  [[esc, 'P'], [esc, 'X'], [esc, '^'], [esc, '_'], [dcs], [sos], [pm], [apc]]

def stringTerminators : List (List Char) := [[bel], [st], [esc, '\\']]

/-- No character of `s` ends a string or may start its end. -/
def IsPayload (s : List Char) : Prop := ∀ c ∈ s, c ≠ bel ∧ c ≠ st ∧ c ≠ esc

instance (s : List Char) : Decidable (IsPayload s) :=
  List.decidableBAll (fun c => c ≠ bel ∧ c ≠ st ∧ c ≠ esc) s

theorem isPayload_append {s t : List Char} : IsPayload (s ++ t) ↔ IsPayload s ∧ IsPayload t :=
  List.forall_mem_append

/-- Two spellings of a command with the same payload, and of what interrupts it. -/
inductive SameCommand (payload : List Char) : List Char → List Char → Prop
  /-- Any introducer goes with any terminator. -/
  | forms {i j s t : List Char} (hi : i ∈ commandIntroducers) (hj : j ∈ commandIntroducers)
      (hs : s ∈ stringTerminators) (ht : t ∈ stringTerminators) :
    SameCommand payload (i ++ payload ++ s) (j ++ payload ++ t)
  /-- An escape sequence ends the command as if BEL stood before it. -/
  | interrupted {i : List Char} (hi : i ∈ commandIntroducers) {c : Char} (hc : c ≠ '\\') :
    SameCommand payload (i ++ payload ++ [esc, c]) (i ++ payload ++ [bel, esc, c])

/-! ### Payloads -/

namespace Payload

variable {p : Payload} {c : Char}

theorem stage_keep (p : Payload) (c : Char) : (p.keep c).stage = p.stage := by
  unfold keep
  split <;> rfl

theorem feed_of_plain (h : p.stage = .collecting) (hc : c ≠ bel ∧ c ≠ st ∧ c ≠ esc) :
    p.feed c = p.keep c := by
  obtain ⟨hcomplete, -, hescaped⟩ := stage_eq_collecting_iff.mp h
  obtain ⟨hbel, hst, hesc⟩ := hc
  simp [feed, hcomplete, hescaped, hbel, hst, hesc]

theorem feed_of_terminator (h : p.stage = .collecting) (hc : c = bel ∨ c = st) :
    p.feed c = { p with isComplete := true } := by
  obtain ⟨hcomplete, -, hescaped⟩ := stage_eq_collecting_iff.mp h
  simp [feed, hcomplete, hescaped, hc]

theorem feed_esc (h : p.stage = .collecting) : p.feed esc = { p with isEscaped := true } := by
  obtain ⟨hcomplete, -, hescaped⟩ := stage_eq_collecting_iff.mp h
  have hne : ¬ (esc = bel ∨ esc = st) := by decide
  simp [feed, hcomplete, hescaped, hne]

theorem feed_of_escaped (h : p.stage = .escaped) (c : Char) :
    p.feed c =
      { p with
        isComplete := true
        isEscaped := false
        interrupt := if c = '\\' then none else some c } := by
  obtain ⟨hcomplete, hinterrupt, hescaped⟩ := stage_eq_escaped_iff.mp h
  simp [feed, hcomplete, hescaped, hinterrupt]

theorem stage_feed_of_plain (h : p.stage = .collecting) (hc : c ≠ bel ∧ c ≠ st ∧ c ≠ esc) :
    (p.feed c).stage = .collecting := by
  rw [feed_of_plain h hc, stage_keep, h]

theorem stage_feed_of_terminator (h : p.stage = .collecting) (hc : c = bel ∨ c = st) :
    (p.feed c).stage = .ended none := by
  rw [feed_of_terminator h hc, stage_eq_ended_iff]
  exact ⟨rfl, (stage_eq_collecting_iff.mp h).2.1⟩

theorem stage_feed_esc (h : p.stage = .collecting) : (p.feed esc).stage = .escaped := by
  obtain ⟨hcomplete, hinterrupt, -⟩ := stage_eq_collecting_iff.mp h
  rw [feed_esc h, stage_eq_escaped_iff]
  exact ⟨hcomplete, hinterrupt, rfl⟩

theorem stage_feed_of_escaped (h : p.stage = .escaped) (c : Char) :
    (p.feed c).stage = .ended (if c = '\\' then none else some c) := by
  rw [feed_of_escaped h, stage_eq_ended_iff]
  exact ⟨rfl, rfl⟩

end Payload

/-! ### The string that is read -/

namespace Progress

variable {σ κ : Type} {x y : Progress σ κ}

def stringPayload (x : Progress σ κ) : Payload :=
  match x.interpreter.state with
  | .command => x.interpreter.command.payload
  | _ => x.interpreter.skipped.payload

/-- What is left once the string that is read has ended with the payload it has. -/
def endString [Clipboard κ] (x : Progress σ κ) : Progress σ κ :=
  match x.interpreter.state with
  | .command =>
    ⟨{ x.interpreter with command := ⟨.empty x.context.settings.payloadLimit⟩ },
      x.interpreter.command.finish x.context⟩
  | _ => ⟨{ x.interpreter with skipped := ⟨x.interpreter.skipped.payload.reset, 0⟩ }, x.context⟩

structure ReadsString (x : Progress σ κ) (stage : Payload.Stage) : Prop where
  isString : x.interpreter.state.isString = true
  stage : x.stringPayload.stage = stage

section ReadsString

variable {stage : Payload.Stage}

/-- A string is a command or is skipped. -/
theorem ReadsString.state (h : x.ReadsString stage) :
    x.interpreter.state = .command ∨ x.interpreter.state = .skipped := by
  have hstring := h.isString
  unfold Interpreter.State.isString at hstring
  split at hstring
  · exact .inl ‹_›
  · exact .inr ‹_›
  · cases hstring

theorem ReadsString.ne_ready (h : x.ReadsString stage) : x.interpreter.state ≠ .ready := by
  rcases h.state with hstate | hstate <;> simp [hstate]

theorem ReadsString.ne_text (h : x.ReadsString stage) : x.interpreter.state ≠ .text := by
  rcases h.state with hstate | hstate <;> simp [hstate]

theorem ReadsString.command_stage (h : x.ReadsString stage)
    (hstate : x.interpreter.state = .command) (limit : Nat) :
    (x.interpreter.command.payload.setLimit limit).stage = stage := by
  have hstage := h.stage
  rwa [stringPayload, hstate] at hstage

theorem ReadsString.skipped_stage (h : x.ReadsString stage)
    (hstate : x.interpreter.state = .skipped) :
    x.interpreter.skipped.payload.stage = stage := by
  have hstage := h.stage
  rwa [stringPayload, hstate] at hstage

end ReadsString

theorem readsString_command (hidle : x.interpreter.Idle) :
    (x.withState .command).ReadsString .collecting := by
  refine ⟨rfl, ?_⟩
  have hpayload : (x.withState .command).stringPayload = x.interpreter.command.payload := rfl
  rw [hpayload, hidle.clear.command]
  rfl

theorem readsString_skipped (hidle : x.interpreter.Idle) :
    (x.withState .skipped).ReadsString .collecting := by
  refine ⟨rfl, ?_⟩
  have hpayload : (x.withState .skipped).stringPayload = x.interpreter.skipped.payload := rfl
  rw [hpayload, hidle.clear.skipped]
  rfl

theorem textDone_endString [Clipboard κ] (h : x.interpreter.TextDone) :
    x.endString.interpreter.TextDone := by
  unfold endString
  split <;> exact ⟨h.state, h.textRun⟩

variable [Screen σ] [Clipboard κ]

theorem Same.afterString (h : x.Same y) (hdone : x.interpreter.TextDone)
    (interrupt : Option Char) : (x.afterString interrupt).Same (y.afterString interrupt) :=
  .of_alike ((h.alike hdone).afterString interrupt)

namespace ReadsString

/-- A character of the payload leaves the string open. -/
theorem tick_plain (h : x.ReadsString .collecting) {c : Char}
    (hc : c ≠ bel ∧ c ≠ st ∧ c ≠ esc) : (x.tick c).ReadsString .collecting := by
  rcases h.state with hstate | hstate
  · have hstage := h.command_stage hstate x.context.settings.payloadLimit
    have hnext := Payload.stage_feed_of_plain hstage hc
    simp only [tick, hstate, tickCommand, hnext]
    exact ⟨rfl, hnext⟩
  · have hnext := Payload.stage_feed_of_plain (h.skipped_stage hstate) hc
    simp only [tick, hstate, tickSkipped, hnext]
    exact ⟨rfl, hnext⟩

/-- BEL and ST end the string. -/
theorem tick_terminator (h : x.ReadsString .collecting) {c : Char} (hc : c = bel ∨ c = st) :
    (x.tick c).Same (x.endString.withState .ready) := by
  rcases h.state with hstate | hstate
  · have hstage := h.command_stage hstate x.context.settings.payloadLimit
    simp only [tick, hstate, tickCommand, Payload.stage_feed_of_terminator hstage hc, endString]
    rw [Payload.feed_of_terminator hstage hc]
    exact ⟨rfl, rfl⟩
  · have hstage := h.skipped_stage hstate
    simp only [tick, hstate, tickSkipped, Payload.stage_feed_of_terminator hstage hc, endString]
    rw [Payload.feed_of_terminator hstage hc]
    exact ⟨rfl, rfl⟩

/-- ESC leaves the string open, and its payload as it is. -/
theorem tick_esc (h : x.ReadsString .collecting) :
    (x.tick esc).ReadsString .escaped ∧ (x.tick esc).endString.Same x.endString := by
  rcases h.state with hstate | hstate
  · have hstage := h.command_stage hstate x.context.settings.payloadLimit
    have hnext := Payload.stage_feed_esc hstage
    simp only [tick, hstate, tickCommand, hnext, endString]
    refine ⟨⟨rfl, hnext⟩, ?_⟩
    rw [Payload.feed_esc hstage]
    exact ⟨by rw [← hstate], rfl⟩
  · have hstage := h.skipped_stage hstate
    have hnext := Payload.stage_feed_esc hstage
    simp only [tick, hstate, tickSkipped, hnext, endString]
    refine ⟨⟨rfl, hnext⟩, ?_⟩
    rw [Payload.feed_esc hstage]
    exact ⟨by rw [← hstate]; rfl, rfl⟩

/-- After ESC a backslash ends the string. Any other character ends it too, and belongs to an escape
sequence. -/
theorem tick_of_escaped (h : x.ReadsString .escaped) (hdone : x.interpreter.TextDone) (c : Char) :
    (x.tick c).Same (x.endString.afterString (if c = '\\' then none else some c)) := by
  rcases h.state with hstate | hstate
  · have hstage := h.command_stage hstate x.context.settings.payloadLimit
    simp only [tick, hstate, tickCommand, Payload.stage_feed_of_escaped hstage c, endString]
    rw [Payload.feed_of_escaped hstage]
    exact .refl _
  · have hstage := h.skipped_stage hstate
    simp only [tick, hstate, tickSkipped, Payload.stage_feed_of_escaped hstage c, endString]
    rw [Payload.feed_of_escaped hstage]
    apply Same.afterString
    · exact ⟨rfl, rfl⟩
    · exact ⟨by simp, hdone.textRun⟩

/-! ### Payloads and terminators -/

/-- A payload leaves the string open. -/
theorem after_payload (h : x.ReadsString .collecting) {s : List Char} (hs : IsPayload s) :
    (x.after s).ReadsString .collecting := by
  induction s generalizing x with
  | nil => exact h
  | cons c s ih =>
    rw [IsPayload, List.forall_mem_cons] at hs
    exact ih (h.tick_plain hs.1) hs.2

theorem textless_payload (h : x.ReadsString .collecting) (hdone : x.interpreter.TextDone)
    {s : List Char} (hs : IsPayload s) : x.Textless s := by
  induction s generalizing x with
  | nil => exact hdone
  | cons c s ih =>
    rw [IsPayload, List.forall_mem_cons] at hs
    exact textless_cons hdone h.ne_ready fun hdone => ih (h.tick_plain hs.1) hdone hs.2

/-- Nothing is left of a string that is skipped. -/
theorem tick_skipped (h : x.ReadsString .collecting) (hstate : x.interpreter.state = .skipped)
    {c : Char} (hc : c ≠ bel ∧ c ≠ st ∧ c ≠ esc) :
    (x.tick c).interpreter.state = .skipped ∧ (x.tick c).endString.Same x.endString := by
  have hnext := Payload.stage_feed_of_plain (h.skipped_stage hstate) hc
  have hreset : (x.interpreter.skipped.payload.feed c).reset =
      x.interpreter.skipped.payload.reset := by
    rw [Payload.reset, Payload.reset, Payload.limit_feed]
  simp only [tick, hstate, tickSkipped, hnext, endString, hreset]
  exact ⟨trivial, rfl, rfl⟩

theorem endString_after_payload (h : x.ReadsString .collecting)
    (hstate : x.interpreter.state = .skipped) {s : List Char} (hs : IsPayload s) :
    (x.after s).endString.Same x.endString := by
  induction s generalizing x with
  | nil => exact .refl _
  | cons c s ih =>
    rw [IsPayload, List.forall_mem_cons] at hs
    obtain ⟨hnext, hsame⟩ := h.tick_skipped hstate hs.1
    exact (ih (h.tick_plain hs.1) hnext hs.2).trans hsame

/-- Where a character after ESC leads. -/
theorem leadsTo_esc (h : x.ReadsString .collecting) (hdone : x.interpreter.TextDone) (c : Char) :
    x.LeadsTo [esc, c] (x.endString.afterString (if c = '\\' then none else some c)) := by
  obtain ⟨hescaped, hsame⟩ := h.tick_esc
  have hdone' := textDone_tick h.ne_ready hdone esc
  refine ⟨⟨hdone, hdone', textDone_tick hescaped.ne_ready hdone' c⟩, ?_⟩
  exact (hescaped.tick_of_escaped hdone' c).trans (hsame.afterString (textDone_endString hdone') _)

/-- All terminators lead to the same point. -/
theorem leadsTo_terminator (h : x.ReadsString .collecting) (hdone : x.interpreter.TextDone)
    {t : List Char} (ht : t ∈ stringTerminators) :
    x.LeadsTo t (x.endString.withState .ready) := by
  have hsingle : ∀ c, c = bel ∨ c = st → x.LeadsTo [c] (x.endString.withState .ready) := by
    intro c hc
    apply LeadsTo.single
    · exact hdone
    · exact ⟨nofun, (textDone_endString hdone).textRun⟩
    · exact h.tick_terminator hc
  simp only [stringTerminators, List.mem_cons, List.not_mem_nil, or_false] at ht
  rcases ht with rfl | rfl | rfl
  · exact hsingle bel (.inl rfl)
  · exact hsingle st (.inr rfl)
  · exact h.leadsTo_esc hdone '\\'

end ReadsString

/-! ### Opening a string -/

section Idle

variable (hidle : x.interpreter.Idle)
include hidle

theorem leadsTo_commandIntroducer {i : List Char} (hi : i ∈ commandIntroducers) :
    x.LeadsTo i (x.withState .command) := by
  simp only [commandIntroducers, List.mem_cons, List.not_mem_nil, or_false] at hi
  rcases hi with rfl | rfl
  · exact leadsTo_opener hidle rfl
  · exact leadsTo_single hidle.textDone hidle.ready (by simp) rfl

theorem leadsTo_skippedIntroducer {i : List Char} (hi : i ∈ skippedIntroducers) :
    x.LeadsTo i (x.withState .skipped) := by
  simp only [skippedIntroducers, List.mem_cons, List.not_mem_nil, or_false] at hi
  rcases hi with rfl | rfl | rfl | rfl | rfl | rfl | rfl | rfl
  · exact leadsTo_opener hidle rfl
  · exact leadsTo_opener hidle rfl
  · exact leadsTo_opener hidle rfl
  · exact leadsTo_opener hidle rfl
  · exact leadsTo_single hidle.textDone hidle.ready (by simp) rfl
  · exact leadsTo_single hidle.textDone hidle.ready (by simp) rfl
  · exact leadsTo_single hidle.textDone hidle.ready (by simp) rfl
  · exact leadsTo_single hidle.textDone hidle.ready (by simp) rfl

/-! ### Commands -/

/-- All spellings of a command lead to the same point. -/
theorem meetAfter_of_sameCommand {payload a b : List Char} (hpayload : IsPayload payload)
    (h : SameCommand payload a b) : x.MeetAfter a b := by
  have hcommand := readsString_command hidle
  have hstring := hcommand.after_payload hpayload
  have hbody : ∀ i ∈ commandIntroducers,
      x.LeadsTo (i ++ payload) ((x.withState .command).after payload) := by
    intro i hi
    have hintroducer := leadsTo_commandIntroducer hidle hi
    have htextless := hcommand.textless_payload hintroducer.textDone hpayload
    exact hintroducer.append (.of_textless htextless)
  cases h with
  | forms hi hj hs ht =>
    have hleft := hbody _ hi
    have hright := hbody _ hj
    exact (hleft.append (hstring.leadsTo_terminator hleft.textDone hs)).meetAfter
      (hright.append (hstring.leadsTo_terminator hright.textDone ht))
  | @interrupted i hi c hc =>
    have hleft := hbody _ hi
    have hesc := hstring.leadsTo_esc hleft.textDone c
    rw [if_neg hc] at hesc
    -- BEL ends the command, and the escape sequence begins anew.
    have hterminator : [bel] ∈ stringTerminators := by simp [stringTerminators]
    have hbel := hstring.leadsTo_terminator hleft.textDone hterminator
    exact (hleft.append hesc).meetAfter
      (hleft.append (hbel.append (leadsTo_esc_of_ready hbel.textDone rfl c)))

/-! ### Strings that are skipped -/

/-- Once a skipped string has ended, it is as if it had not been there. -/
theorem endString_skipped {payload : List Char} (hpayload : IsPayload payload) :
    ((x.withState .skipped).after payload).endString.Same (x.withState .skipped) := by
  have hsame := (readsString_skipped hidle).endString_after_payload rfl hpayload
  have hnothing : (x.withState .skipped).endString = x.withState .skipped := by
    simp only [endString, withState, hidle.clear.skipped]
    rfl
  rwa [hnothing] at hsame

theorem leadsTo_skippedPayload {i payload : List Char} (hi : i ∈ skippedIntroducers)
    (hpayload : IsPayload payload) :
    x.LeadsTo (i ++ payload) ((x.withState .skipped).after payload) := by
  have hintroducer := leadsTo_skippedIntroducer hidle hi
  have htextless := (readsString_skipped hidle).textless_payload hintroducer.textDone hpayload
  exact hintroducer.append (.of_textless htextless)

theorem skipped_meetAfter_nil {i payload t : List Char} (hi : i ∈ skippedIntroducers)
    (hpayload : IsPayload payload) (ht : t ∈ stringTerminators) :
    x.MeetAfter (i ++ payload ++ t) [] := by
  have hstring := (readsString_skipped hidle).after_payload hpayload
  have hbody := leadsTo_skippedPayload hidle hi hpayload
  have hend := hstring.leadsTo_terminator hbody.textDone ht
  have hback := (endString_skipped hidle hpayload).withState .ready
  have hself : (x.withState .skipped).withState .ready = x := by
    rw [withState, withState, ← hidle.ready]
  rw [hself] at hback
  exact (hbody.append (hend.trans_same hback)).meetAfter (.of_textless hidle.textDone)

theorem skipped_meetAfter_esc {i payload : List Char} (hi : i ∈ skippedIntroducers)
    (hpayload : IsPayload payload) {c : Char} (hc : c ≠ '\\') :
    x.MeetAfter (i ++ payload ++ [esc, c]) [esc, c] := by
  have hstring := (readsString_skipped hidle).after_payload hpayload
  have hbody := leadsTo_skippedPayload hidle hi hpayload
  have hesc := hstring.leadsTo_esc hbody.textDone c
  rw [if_neg hc] at hesc
  have hback := (endString_skipped hidle hpayload).afterString
    (textDone_endString hbody.textDone) (some c)
  exact (hbody.append (hesc.trans_same hback)).meetAfter
    (leadsTo_esc_of_ready hidle.textDone hidle.ready c)

end Idle

end Progress

namespace Terminal

/-- A page does not show which of two interchangeable beginnings a stream has, and how it is
divided. -/
theorem AtRest.page_eq_of_interchangeable {κ : Type} [Clipboard κ] {t : Terminal Page κ}
    (ht : t.AtRest) {a b : List Char} (h : t.Interchangeable a b) {pieces more : List (List Char)}
    {s : List Char} (hpieces : pieces.flatten = a ++ s) (hmore : more.flatten = b ++ s) :
    (t.writeAll pieces).screen.layout = (t.writeAll more).screen.layout ∧
      ∀ contents : κ → Option String,
        Snapshot.ofTerminal contents (t.writeAll pieces) =
          Snapshot.ofTerminal contents (t.writeAll more) := by
  have hlayout := ht.layout_writeAll_congr (h.calls hpieces hmore)
  exact ⟨hlayout, (h.sameBesideScreen hpieces hmore).snapshot_eq hlayout⟩

/-- Whether a command is introduced by ESC and a bracket or by OSC, and terminated by BEL, by ST or
by ESC and a backslash, a terminal goes on alike, also if an escape sequence takes the place of the
terminator. If what follows is divided in the same places the terminals are equal; if not, they
differ in the text written last and in how text was divided among the calls to the screen. A page
does not show this. -/
theorem Reachable.command_interchangeable {payload a b : List Char} (hpayload : IsPayload payload)
    (h : SameCommand payload a b) :
    (∀ {σ κ : Type} [Screen σ] [Clipboard κ] {t : Terminal σ κ}, t.Reachable →
      t.state = .ready → t.Interchangeable a b) ∧
    ∀ {κ : Type} [Clipboard κ] {t : Terminal Page κ}, t.Reachable → t.state = .ready →
      ∀ {pieces more : List (List Char)} {s : List Char},
        pieces.flatten = a ++ s → more.flatten = b ++ s →
        (t.writeAll pieces).screen.layout = (t.writeAll more).screen.layout ∧
        ∀ contents : κ → Option String,
          Snapshot.ofTerminal contents (t.writeAll pieces) =
            Snapshot.ofTerminal contents (t.writeAll more) := by
  have hterminals : ∀ {σ κ : Type} [Screen σ] [Clipboard κ] {t : Terminal σ κ}, t.Reachable →
      t.state = .ready → t.Interchangeable a b := by
    intro σ κ _ _ t ht hready
    exact ht.atRest.interchangeable hready fun hidle =>
      Progress.meetAfter_of_sameCommand hidle hpayload h
  refine ⟨hterminals, ?_⟩
  intro κ _ t ht hready pieces more s hpieces hmore
  exact ht.atRest.page_eq_of_interchangeable (hterminals ht hready) hpieces hmore

/-- A title in its two spellings, cut off after the ESC of its terminator, before text. -/
theorem command_interchangeable_title :
    let t := onPage (.empty 80) .standard
    let pieces := ["\x1b]0;t\x1b".toList, "\\ab".toList]
    let more := ["\u009d0;t\x07ab".toList]
    t.Reachable ∧ t.state = .ready ∧ (t.writeAll pieces).title? = some "t" ∧
      (t.writeAll pieces).SameBesideScreen (t.writeAll more) ∧
      (t.writeAll pieces).screen.layout = (t.writeAll more).screen.layout := by
  have hreachable : (onPage (.empty 80) .standard).Reachable := .onScreen _ _ _
  have hpayload : IsPayload "0;t".toList := by decide
  have hsame : SameCommand "0;t".toList "\x1b]0;t\x1b\\".toList "\u009d0;t\x07".toList :=
    .forms (i := [esc, ']']) (j := [osc]) (s := [esc, '\\']) (t := [bel]) (by decide) (by decide)
      (by decide) (by decide)
  obtain ⟨hterminals, hpages⟩ := Reachable.command_interchangeable hpayload hsame
  have hpieces : ["\x1b]0;t\x1b".toList, "\\ab".toList].flatten =
      "\x1b]0;t\x1b\\".toList ++ "ab".toList := rfl
  have hmore : ["\u009d0;t\x07ab".toList].flatten = "\u009d0;t\x07".toList ++ "ab".toList := rfl
  refine ⟨hreachable, rfl, ?_, (hterminals hreachable rfl).sameBesideScreen hpieces hmore,
    (hpages hreachable rfl hpieces hmore).1⟩
  rw [writeAll, List.foldl_cons, List.foldl_cons, List.foldl_nil,
    write_eq (hreachable.atRest.write _), write_eq hreachable.atRest]
  rfl

/-- If the text after a command is divided in other places the terminals need not be equal: the text
written last is that of the last delivery. -/
theorem command_not_interchangeable_divided :
    let t := onPage (.empty 80) .standard
    let pieces := ["\x1b]0;t\x07ab".toList]
    let more := ["\u009d0;t\u009ca".toList, "b".toList]
    SameCommand "0;t".toList "\x1b]0;t\x07".toList "\u009d0;t\u009c".toList ∧
      pieces.flatten = "\x1b]0;t\x07".toList ++ "ab".toList ∧
      more.flatten = "\u009d0;t\u009c".toList ++ "ab".toList ∧
      t.Reachable ∧ t.state = .ready ∧
      (t.writeAll pieces).store.get? .written = some "ab" ∧
      (t.writeAll more).store.get? .written = some "b" := by
  have hreachable : (onPage (.empty 80) .standard).Reachable := .onScreen _ _ _
  refine ⟨.forms (i := [esc, ']']) (j := [osc]) (s := [bel]) (t := [st]) (by decide) (by decide)
    (by decide) (by decide), rfl, rfl, hreachable, rfl, ?_, ?_⟩
  · rw [writeAll, List.foldl_cons, List.foldl_nil, write_eq hreachable.atRest]
    rfl
  · rw [writeAll, List.foldl_cons, List.foldl_cons, List.foldl_nil,
      write_eq (hreachable.atRest.write _), write_eq hreachable.atRest]
    rfl

/-- A string that is skipped leaves a terminal exactly as it was, however it is divided. If an
escape sequence interrupts it, the terminal goes on as if there was nothing but the escape sequence:
if what follows is divided in the same places the terminals are equal; if not, they differ in the
text written last and in how text was divided among the calls to the screen. A page does not show
this. -/
theorem Reachable.skipped_transparent {i payload : List Char} (hi : i ∈ skippedIntroducers)
    (hpayload : IsPayload payload) :
    (∀ {σ κ : Type} [Screen σ] [Clipboard κ] {t : Terminal σ κ}, t.Reachable → t.state = .ready →
      (∀ {e : List Char} {pieces : List (List Char)}, e ∈ stringTerminators →
        pieces.flatten = i ++ payload ++ e → t.writeAll pieces = t) ∧
      ∀ {c : Char}, c ≠ '\\' → t.Interchangeable (i ++ payload ++ [esc, c]) [esc, c]) ∧
    ∀ {κ : Type} [Clipboard κ] {t : Terminal Page κ}, t.Reachable → t.state = .ready →
      ∀ {c : Char} {pieces more : List (List Char)} {s : List Char}, c ≠ '\\' →
        pieces.flatten = i ++ payload ++ [esc, c] ++ s → more.flatten = [esc, c] ++ s →
        (t.writeAll pieces).screen.layout = (t.writeAll more).screen.layout ∧
        ∀ contents : κ → Option String,
          Snapshot.ofTerminal contents (t.writeAll pieces) =
            Snapshot.ofTerminal contents (t.writeAll more) := by
  have hcut : ∀ {σ κ : Type} [Screen σ] [Clipboard κ] {t : Terminal σ κ}, t.Reachable →
      t.state = .ready → ∀ {c : Char}, c ≠ '\\' →
        t.Interchangeable (i ++ payload ++ [esc, c]) [esc, c] := by
    intro σ κ _ _ t ht hready c hc
    exact ht.atRest.interchangeable hready fun hidle =>
      Progress.skipped_meetAfter_esc hidle hi hpayload hc
  constructor
  · intro σ κ _ _ t ht hready
    refine ⟨?_, hcut ht hready⟩
    intro e pieces he hpieces
    refine ht.atRest.writeAll_eq_self ?_
    rw [hpieces]
    exact Progress.skipped_meetAfter_nil (ht.atRest.idle hready) hi hpayload he
  · intro κ _ t ht hready c pieces more s hc hpieces hmore
    exact ht.atRest.page_eq_of_interchangeable (hcut ht hready hc) hpieces hmore

/-- A device control string with a control sequence and a title in it. It is then interrupted, in a
delivery that also has text. -/
theorem skipped_transparent_device :
    let t := (onPage (.empty 80) .standard).write ['a']
    let pieces := [[dcs, csi, '4', 'h'], [osc, '0', ';', 't', esc], ['\\']]
    let cut := [[dcs, csi, '4', 'h', esc], ['M', 'b'], ['c']]
    t.Reachable ∧ t.state = .ready ∧ t.writeAll pieces = t ∧
      t.Interchangeable ([dcs] ++ [csi, '4', 'h'] ++ [esc, 'M']) [esc, 'M'] ∧
      (t.writeAll cut).screen.layout = (t.writeAll [[esc, 'M', 'b', 'c']]).screen.layout := by
  have hstart : (onPage (.empty 80) .standard).Reachable := .onScreen _ _ _
  have hreachable := hstart.write ['a']
  have hready : ((onPage (.empty 80) .standard).write ['a']).state = .ready := by
    rw [state, write_eq hstart.atRest]
    rfl
  have hintroducer : [dcs] ∈ skippedIntroducers := by decide
  have htitle : IsPayload [csi, '4', 'h', osc, '0', ';', 't'] := by decide
  have hmode : IsPayload [csi, '4', 'h'] := by decide
  have hterminator : [esc, '\\'] ∈ stringTerminators := by decide
  have hpieces : [[dcs, csi, '4', 'h'], [osc, '0', ';', 't', esc], ['\\']].flatten =
      [dcs] ++ [csi, '4', 'h', osc, '0', ';', 't'] ++ [esc, '\\'] := rfl
  have hcut : [[dcs, csi, '4', 'h', esc], ['M', 'b'], ['c']].flatten =
      [dcs] ++ [csi, '4', 'h'] ++ [esc, 'M'] ++ ['b', 'c'] := rfl
  have hwhole : [[esc, 'M', 'b', 'c']].flatten = [esc, 'M'] ++ ['b', 'c'] := rfl
  have htransparent := (Reachable.skipped_transparent hintroducer htitle).1 hreachable hready
  obtain ⟨hterminals, hpages⟩ := Reachable.skipped_transparent hintroducer hmode
  exact ⟨hreachable, hready, htransparent.1 hterminator hpieces,
    (hterminals hreachable hready).2 (by decide),
    (hpages hreachable hready (by decide) hcut hwhole).1⟩

/-- If the text after a string that was interrupted is divided in other places than without the
string, the terminals need not be equal: the text written last is that of the last delivery. -/
theorem skipped_not_transparent_divided :
    let t := onPage (.empty 80) .standard
    let pieces := ["\u0090x\x1bMa".toList, "b".toList]
    let more := ["\x1bMab".toList]
    [dcs] ∈ skippedIntroducers ∧ IsPayload ['x'] ∧
      pieces.flatten = [dcs] ++ ['x'] ++ [esc, 'M'] ++ "ab".toList ∧
      more.flatten = [esc, 'M'] ++ "ab".toList ∧
      t.Reachable ∧ t.state = .ready ∧
      (t.writeAll pieces).store.get? .written = some "b" ∧
      (t.writeAll more).store.get? .written = some "ab" ∧
      t.writeAll pieces ≠ t.writeAll more := by
  intro t pieces more
  have hreachable : t.Reachable := .onScreen _ _ _
  have hpieces : (t.writeAll pieces).store.get? .written = some "b" := by
    rw [writeAll, List.foldl_cons, List.foldl_cons, List.foldl_nil,
      write_eq (hreachable.atRest.write _), write_eq hreachable.atRest]
    decide +kernel
  have hmore : (t.writeAll more).store.get? .written = some "ab" := by
    rw [writeAll, List.foldl_cons, List.foldl_nil, write_eq hreachable.atRest]
    rfl
  refine ⟨by decide, by decide, rfl, rfl, hreachable, rfl, hpieces, hmore, ?_⟩
  intro heq
  rw [heq, hmore] at hpieces
  exact absurd hpieces (by decide)

end Terminal

end ControlStream
