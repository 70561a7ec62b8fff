import ControlStream.Terminal
import ControlStream.Proofs.Sequences

/-!
# Interpretation character by character

`Interpreter.run` looks ahead: a run of text is written once the character after it is known, and
a string is taken from the input in one go. `Progress.tick` interprets one character and knows
nothing of those after it. A run of text then waits until a character ends it, or until
`Progress.settle` writes it at the end of a delivery.

## Main definitions

* `Progress`: an interpreter and its context between two characters.
* `Progress.settle`: write the run of text that waits.
* `Progress.tick`, `Progress.after`: interpret a character, or several.

## Main statements

* `Progress.run_settleBefore`: looking ahead makes no difference, `Interpreter.run` is the fold of
  `Progress.tick`.
-/

namespace ControlStream

/-- An interpreter and its context between two characters. -/
structure Progress (σ κ : Type) where
  interpreter : Interpreter
  context : Context σ κ

/-- No run of text is in progress or waits. -/
structure Interpreter.TextDone (i : Interpreter) : Prop where
  state : i.state ≠ .text
  textRun : i.textRun = .empty

/-- A run of text waits only while nothing else is in progress. -/
def Interpreter.KeepsText (i : Interpreter) : Prop :=
  i.state = .ready ∨ i.state = .text ∨ i.textRun = .empty

namespace Progress

variable {σ κ : Type}

def withState (x : Progress σ κ) (state : Interpreter.State) : Progress σ κ :=
  ⟨{ x.interpreter with state }, x.context⟩

section Definitions

variable [Screen σ]

def settle (x : Progress σ κ) : Progress σ κ :=
  let flushed := x.interpreter.textRun.flush x.context
  ⟨{ x.interpreter with
      state := if x.interpreter.state = .text then .ready else x.interpreter.state
      textRun := flushed.1 }, flushed.2⟩

/-- Write the run of text that waits if it ends before the next character. -/
def settleBefore (x : Progress σ κ) (next : Option Char) : Progress σ κ :=
  if TextRun.endsBefore next then x.settle else x

/-- Add a printable character to the run of text. In insert mode it does not wait. -/
def addText (x : Progress σ κ) (c : Char) : Progress σ κ :=
  let added := x.interpreter.textRun.add c x.context
  let y : Progress σ κ := ⟨{ x.interpreter with state := .text, textRun := added.1 }, added.2⟩
  if added.2.store.getD .insertMode false then y.settle else y

def begin (x : Progress σ κ) (c : Char) : Progress σ κ :=
  match Opening.ofChar c with
  | .escape => x.withState .escape
  | .control => x.withState .control
  | .command => x.withState .command
  | .skipped => x.withState .skipped
  | .nul | .del => x.withState .ready
  | .execute => ⟨{ x.interpreter with state := .ready }, x.context.executeControl c⟩
  | .ignored => ⟨{ x.interpreter with state := .ready }, x.context.log (.ignoredC1 c)⟩
  | .text => x.addText c

def tickEscape (x : Progress σ κ) (c : Char) : Progress σ κ :=
  let step := x.interpreter.escape.process c x.context
  ⟨{ x.interpreter with state := step.state, escape := step.part }, step.context⟩

def tickControl (x : Progress σ κ) (c : Char) : Progress σ κ :=
  let step := x.interpreter.control.process c x.context
  ⟨{ x.interpreter with state := step.state, control := step.part }, step.context⟩

/-- Go on after a string. A character that interrupted it belongs to an escape sequence. -/
def afterString (x : Progress σ κ) : Option Char → Progress σ κ
  | none => x.withState .ready
  | some c => x.tickEscape c

def tickSkipped (x : Progress σ κ) (c : Char) : Progress σ κ :=
  let s := x.interpreter.skipped
  let payload := s.payload.feed c
  match payload.stage with
  | .ended interrupt =>
    afterString ⟨{ x.interpreter with skipped := ⟨payload.reset, 0⟩ },
      x.context.log (.ignoredString s.skipped.toNat)⟩ interrupt
  | _ => ⟨{ x.interpreter with state := .skipped, skipped := ⟨payload, s.skipped + 1⟩ }, x.context⟩

variable [Clipboard κ]

def tickCommand (x : Progress σ κ) (c : Char) : Progress σ κ :=
  let limit := x.context.settings.payloadLimit
  let s : CommandString := ⟨(x.interpreter.command.payload.setLimit limit).feed c⟩
  match s.payload.stage with
  | .ended interrupt =>
    afterString ⟨{ x.interpreter with command := s.reset }, s.finish x.context⟩ interrupt
  | _ => ⟨{ x.interpreter with state := .command, command := s }, x.context⟩

/-- Interpret one character without looking ahead. -/
def tick (x : Progress σ κ) (c : Char) : Progress σ κ :=
  match x.interpreter.state with
  | .ready | .text => (x.settleBefore (some c)).begin c
  | .escape => x.tickEscape c
  | .control => x.tickControl c
  | .command => x.tickCommand c
  | .skipped => x.tickSkipped c

def after (x : Progress σ κ) (s : List Char) : Progress σ κ := s.foldl tick x

end Definitions

end Progress

/-! ### What a character means -/

namespace Opening

/-- The characters that mean something of their own are control characters. -/
theorem ofChar_of_not_isControl {c : Char} (h : isControl c = false) : ofChar c = .text := by
  have hne : ∀ d : Char, isControl d = true → c ≠ d := by
    rintro d hd rfl
    rw [h] at hd
    cases hd
  have hskipped : c ∉ skippedOpeners := by
    intro hc
    simp only [skippedOpeners, List.mem_cons, List.not_mem_nil, or_false] at hc
    rcases hc with hc | hc | hc | hc <;> exact hne _ rfl hc
  have hexecutable : ¬ isExecutable c = true := by
    intro hc
    rw [isControl_of_isExecutable hc] at h
    cases h
  have hc1 : ¬ inRange 0x80 0x9F c = true := by
    intro hc
    rw [inRange_iff] at hc
    rw [isControl_iff.mpr (by omega)] at h
    cases h
  simp [ofChar, hne ControlChar.esc rfl, hne ControlChar.csi rfl, hne ControlChar.osc rfl,
    hne ControlChar.nul rfl, hne ControlChar.del rfl, hskipped, hexecutable, hc1]

/-- Every control character means something of its own. -/
theorem isControl_of_ofChar {c : Char} (h : ofChar c = .text) : isControl c = false := by
  rw [← Bool.not_eq_true, isControl_iff]
  intro hc
  unfold ofChar at h
  repeat' split at h
  all_goals try cases h
  rename_i hesc _ _ _ hnul hdel hexecutable hc1
  have hnul' : c.toNat ≠ 0 := fun h0 => hnul (Char.toNat_inj.mp h0)
  have hdel' : c.toNat ≠ 0x7F := fun h0 => hdel (Char.toNat_inj.mp h0)
  simp only [isExecutable, Bool.and_eq_true, inRange_iff, bne_iff_ne, not_and] at hexecutable
  rw [inRange_iff] at hc1
  by_cases hlow : c.toNat ≤ 0x1F
  · exact hexecutable ⟨by omega, hlow⟩ hesc
  · omega

/-- A character that does not end a run of text is NUL or printable. -/
theorem ofChar_of_not_endsText {c : Char} (h : endsText c = false) :
    c = ControlChar.nul ∨ c ≠ ControlChar.nul ∧ ofChar c = .text := by
  rw [endsText_eq, Bool.and_eq_false_iff] at h
  rcases h with h | h
  · left
    simpa using h
  · by_cases hc : c = ControlChar.nul
    · exact .inl hc
    · exact .inr ⟨hc, ofChar_of_not_isControl h⟩

end Opening

/-! ### Runs of text, without looking ahead -/

namespace TextRun

variable {σ κ : Type} [Screen σ]

theorem isEmpty_iff {run : TextRun} : run.pending.isEmpty = true ↔ run = .empty := by
  obtain ⟨pending⟩ := run
  simp [empty, String.isEmpty_iff]

@[simp] theorem flush_empty (ctx : Context σ κ) : empty.flush ctx = (empty, ctx) := rfl

theorem flush_of_ne {run : TextRun} (h : run ≠ .empty) (ctx : Context σ κ) :
    run.flush ctx = (empty,
      { ctx with
        screen := Screen.write ctx.screen run.pending
        store := ctx.store.set .written run.pending }) := by
  rw [flush, if_neg (mt isEmpty_iff.mp h)]

/-- Nothing waits after a run was written. -/
@[simp] theorem flush_fst (run : TextRun) (ctx : Context σ κ) : (run.flush ctx).1 = .empty := by
  by_cases h : run = .empty
  · rw [h, flush_empty]
  · rw [flush_of_ne h]

end TextRun

namespace Progress

variable {σ κ : Type} [Screen σ]

theorem textDone_settle (x : Progress σ κ) : x.settle.interpreter.TextDone where
  state := by
    simp only [settle]
    split
    · simp
    · assumption
  textRun := by simp [settle]

theorem settle_of_textDone {x : Progress σ κ} (h : x.interpreter.TextDone) : x.settle = x := by
  obtain ⟨⟨state, textRun, escape, control, command, skipped⟩, ctx⟩ := x
  obtain ⟨hstate, rfl⟩ := h
  simp [settle, show state ≠ .text from hstate]

@[simp] theorem settle_settle (x : Progress σ κ) : x.settle.settle = x.settle :=
  settle_of_textDone x.textDone_settle

theorem settleBefore_of_textDone {x : Progress σ κ} (h : x.interpreter.TextDone)
    (next : Option Char) : x.settleBefore next = x := by
  rw [settleBefore, settle_of_textDone h, ite_self]

/-- What is left of a progress once the characters `s` are in the input. -/
def toDelivery (x : Progress σ κ) (s : List Char) : Delivery σ κ :=
  ⟨x.interpreter, ⟨none, s⟩, x.context⟩

/-- NUL has no effect on a run of text but that it may be written. -/
theorem continueText_nul (x : Progress σ κ) (s : List Char) :
    x.interpreter.continueText ControlChar.nul ⟨none, s⟩ x.context =
      ((x.withState .ready).settleBefore s.head?).toDelivery s := by
  have hpeek : (Input.mk none s).peek = s.head? := Input.peek_eq _
  simp only [Interpreter.continueText, hpeek, TextRun.process, if_true]
  unfold settleBefore
  split <;> rfl

/-- A printable character is added to the run of text, which may then be written. -/
theorem continueText_of_ne_nul (x : Progress σ κ) {c : Char} (h : c ≠ ControlChar.nul)
    (s : List Char) :
    x.interpreter.continueText c ⟨none, s⟩ x.context =
      ((x.addText c).settleBefore s.head?).toDelivery s := by
  have hpeek : (Input.mk none s).peek = s.head? := Input.peek_eq _
  simp only [Interpreter.continueText, hpeek, TextRun.process, if_neg h, addText]
  generalize x.interpreter.textRun.add c x.context = added
  by_cases hinsert : added.2.store.getD .insertMode false = true
  · simp only [hinsert, Bool.or_true, if_true]
    rw [settleBefore_of_textDone (textDone_settle _)]
    rfl
  · simp only [hinsert, Bool.or_false, settleBefore]
    split
    · rfl
    · rfl

theorem begin_of_text (x : Progress σ κ) {c : Char} (h : Opening.ofChar c = .text) :
    x.begin c = x.addText c := by
  rw [begin, h]

@[simp] theorem begin_nul (x : Progress σ κ) : x.begin ControlChar.nul = x.withState .ready := rfl

/-- With nothing in progress, looking ahead only serves to write a run of text. -/
theorem start_of_textDone {x : Progress σ κ} (h : x.interpreter.TextDone) (c : Char)
    (s : List Char) :
    x.interpreter.start c ⟨none, s⟩ x.context =
      ((x.begin c).settleBefore s.head?).toDelivery s := by
  obtain ⟨i, ctx⟩ := x
  obtain ⟨-, htext⟩ := h
  simp only at htext
  unfold Interpreter.start
  have hdone : ∀ {state : Interpreter.State} (a : Context σ κ), state ≠ .text →
      (⟨{ i with state }, a⟩ : Progress σ κ).settleBefore s.head? = ⟨{ i with state }, a⟩ :=
    fun a hstate => settleBefore_of_textDone ⟨hstate, htext⟩ _
  cases hc : Opening.ofChar c with
  | text =>
    have hnul : c ≠ ControlChar.nul := by
      rintro rfl
      cases hc
    simp only [begin_of_text _ hc]
    exact continueText_of_ne_nul ⟨i, ctx⟩ hnul s
  | nul =>
    have hempty := TextRun.isEmpty_iff.mpr htext
    simp only [begin, hc, withState, hempty, if_true]
    rw [hdone _ (by simp)]
    rfl
  | escape | control | command | skipped | del | execute | ignored =>
    simp only [begin, hc, withState]
    rw [hdone _ (by simp)]
    rfl

/-- With a run of text in progress, looking ahead only serves to write it. -/
theorem step_settleBefore [Clipboard κ] {x : Progress σ κ}
    (h : x.interpreter.state = .ready ∨ x.interpreter.state = .text) (c : Char) (s : List Char) :
    (x.settleBefore (some c)).interpreter.step c ⟨none, s⟩ (x.settleBefore (some c)).context =
      .ok ((((x.settleBefore (some c)).begin c).settleBefore s.head?).toDelivery s) := by
  by_cases hends : endsText c = true
  · have hready : x.settle.interpreter.state = .ready := by
      rcases h with h | h <;> simp [settle, h]
    have hsettle : x.settleBefore (some c) = x.settle := if_pos hends
    rw [hsettle, Interpreter.step, hready]
    exact congrArg _ (start_of_textDone x.textDone_settle c s)
  · have hsettle : x.settleBefore (some c) = x := if_neg hends
    rw [hsettle]
    rcases Opening.ofChar_of_not_endsText (Bool.eq_false_iff.mpr hends) with rfl | ⟨hnul, hc⟩
    · rcases h with h | h
      · rw [Interpreter.step, h]
        by_cases htext : x.interpreter.textRun = .empty
        · exact congrArg _ (start_of_textDone ⟨by simp [h], htext⟩ _ s)
        · have hopening : Opening.ofChar ControlChar.nul = .nul := rfl
          simp only [Interpreter.start, hopening, if_neg (mt TextRun.isEmpty_iff.mp htext)]
          rw [begin_nul, ← continueText_nul]
      · rw [begin_nul, ← continueText_nul, Interpreter.step, h]
    · rw [begin_of_text x hc, ← continueText_of_ne_nul x hnul]
      rcases h with h | h <;> simp only [Interpreter.step, h, Interpreter.start, hc]

end Progress

/-! ### Strings, one character at a time -/

def Interpreter.stateAfter : Option Char → Interpreter.State
  | none => .ready
  | some _ => .escape

def Interpreter.receiveCommand {σ κ : Type} [Clipboard κ] (i : Interpreter) (ctx : Context σ κ)
    (r : Collected) : Delivery σ κ :=
  match r.next with
  | some state =>
    ⟨{ i with state, command := CommandString.reset ⟨r.payload⟩ }, r.input,
      CommandString.finish ⟨r.payload⟩ ctx⟩
  | none => ⟨{ i with state := .command, command := ⟨r.payload⟩ }, r.input, ctx⟩

def Interpreter.receiveSkipped {σ κ : Type} (i : Interpreter) (ctx : Context σ κ)
    (r : Collected) : Delivery σ κ :=
  let count := i.skipped.skipped + .ofNat r.count
  match r.next with
  | some state =>
    ⟨{ i with state, skipped := ⟨r.payload.reset, 0⟩ }, r.input,
      ctx.log (.ignoredString count.toNat)⟩
  | none => ⟨{ i with state := .skipped, skipped := ⟨r.payload, count⟩ }, r.input, ctx⟩

/-- What is left of `n` characters, given the payload with those taken and those not taken. -/
def Collected.ofRest (n : Nat) (payload : Payload) (rest : List Char) : Collected :=
  match payload.stage with
  | .ended interrupt =>
    ⟨payload, n - rest.length - 1, some (Interpreter.stateAfter interrupt), ⟨interrupt, rest⟩⟩
  | _ => ⟨payload, n - rest.length, none, ⟨none, rest⟩⟩

namespace Payload

theorem collect_eq (p : Payload) (c : Char) (s : List Char) :
    p.collect c ⟨none, s⟩ =
      .ok (.ofRest (s.length + 1) (p.consume (c :: s)).1 (p.consume (c :: s)).2) := by
  have hcount : (Input.mk (some c) s).length = s.length + 1 := by simp [Input.length]
  simp only [collect, Input.pushBack_mk_none, bind, Except.bind, pure, Except.pure, Input.toList,
    Option.toList_some, List.singleton_append, hcount, Collected.ofRest]
  generalize p.consume (c :: s) = taken
  rcases taken.1.stage with _ | _ | (_ | _) | _ <;> rfl

/-- A character that ends the string is the last one taken. If it interrupts the string it is put
back. -/
theorem collect_of_ended {p : Payload} {c : Char} {interrupt : Option Char}
    (h : (p.feed c).stage = .ended interrupt) (s : List Char) :
    p.collect c ⟨none, s⟩ =
      .ok ⟨p.feed c, 0, some (Interpreter.stateAfter interrupt), ⟨interrupt, s⟩⟩ := by
  have hcomplete : (p.feed c).isComplete = true := isComplete_iff.mpr ⟨_, h⟩
  simp [collect_eq, consume, hcomplete, Collected.ofRest, h]

/-- A string that does not end at the last character available waits for the next one. -/
theorem collect_nil {p : Payload} {c : Char} (h : (p.feed c).isComplete = false) :
    p.collect c ⟨none, []⟩ = .ok ⟨p.feed c, 1, none, ⟨none, []⟩⟩ := by
  rw [collect_eq]
  simp only [consume, h, Bool.false_eq_true, if_false, Collected.ofRest]
  split
  · rename_i interrupt hstage
    have := isComplete_iff.mpr ⟨interrupt, hstage⟩
    simp_all
  · rfl

/-- Taking a character that does not end the string, and those after it, is taking it first and
then the others. -/
theorem collect_cons {p : Payload} {c : Char} (h : (p.feed c).isComplete = false) (d : Char)
    (s : List Char) :
    p.collect c ⟨none, d :: s⟩ =
      ((p.feed c).collect d ⟨none, s⟩).map fun r => { r with count := r.count + 1 } := by
  have hle := length_consume_cons_le (p.feed c) d s
  have hconsume : p.consume (c :: d :: s) = (p.feed c).consume (d :: s) := by
    rw [consume, if_neg (by simp [h])]
  rw [collect_eq, collect_eq, hconsume, List.length_cons, Except.map]
  generalize (p.feed c).consume (d :: s) = taken at hle ⊢
  simp only [Collected.ofRest]
  split
  · have hcount : s.length + 1 + 1 - taken.2.length - 1 =
        s.length + 1 - taken.2.length - 1 + 1 := by omega
    rw [hcount]
  · have hcount : s.length + 1 + 1 - taken.2.length =
        s.length + 1 - taken.2.length + 1 := by omega
    rw [hcount]

end Payload

namespace Progress

variable {σ κ : Type} [Screen σ] [Clipboard κ]

def run (x : Progress σ κ) (s : List Char) : Except SlotOccupied (Delivery σ κ) :=
  x.interpreter.run ⟨none, s⟩ x.context

theorem run_nil (x : Progress σ κ) : x.run [] = .ok ⟨x.interpreter, .empty, x.context⟩ :=
  Interpreter.run_of_read_none rfl x.context

/-- A character in the slot is as good as one in front of the queue. -/
theorem run_slot (i : Interpreter) (c : Char) (s : List Char) (ctx : Context σ κ) :
    i.run ⟨some c, s⟩ ctx = i.run ⟨none, c :: s⟩ ctx := by
  rw [Interpreter.run, Interpreter.run]
  rfl

theorem run_of_step {i : Interpreter} {c : Char} {s : List Char} {ctx : Context σ κ}
    {next : Delivery σ κ} (h : i.step c ⟨none, s⟩ ctx = .ok next) :
    i.run ⟨none, c :: s⟩ ctx = next.interpreter.run next.input next.context :=
  Interpreter.run_of_read_some rfl h

/-- Steps with the same result are followed by the same run. -/
theorem run_congr {i j : Interpreter} {c d : Char} {s t : List Char} {a b : Context σ κ}
    (h : i.step c ⟨none, s⟩ a = j.step d ⟨none, t⟩ b) :
    i.run ⟨none, c :: s⟩ a = j.run ⟨none, d :: t⟩ b := by
  have hslot : (Input.mk none t).slot = none := rfl
  obtain ⟨next, hnext⟩ := j.step_ok d hslot b
  rw [run_of_step hnext, run_of_step (h.trans hnext)]

theorem run_cons_escape {x : Progress σ κ} (h : x.interpreter.state = .escape) (c : Char)
    (s : List Char) : x.run (c :: s) = (x.tickEscape c).run s := by
  have hstep : x.interpreter.step c ⟨none, s⟩ x.context =
      .ok ⟨(x.tickEscape c).interpreter, ⟨none, s⟩, (x.tickEscape c).context⟩ := by
    unfold Interpreter.step
    rw [h]
    rfl
  exact run_of_step hstep

theorem run_cons_control {x : Progress σ κ} (h : x.interpreter.state = .control) (c : Char)
    (s : List Char) : x.run (c :: s) = (x.tickControl c).run s := by
  have hstep : x.interpreter.step c ⟨none, s⟩ x.context =
      .ok ⟨(x.tickControl c).interpreter, ⟨none, s⟩, (x.tickControl c).context⟩ := by
    unfold Interpreter.step
    rw [h]
    rfl
  exact run_of_step hstep

/-- After a string that has ended, a character that interrupted it comes first. -/
theorem run_afterString (i : Interpreter) (ctx : Context σ κ) (interrupt : Option Char)
    (s : List Char) :
    ({ i with state := Interpreter.stateAfter interrupt } : Interpreter).run ⟨interrupt, s⟩ ctx =
      (afterString ⟨i, ctx⟩ interrupt).run s := by
  cases interrupt with
  | none => rfl
  | some c =>
    rw [run_slot]
    exact run_cons_escape (x := ⟨{ i with state := .escape }, ctx⟩) rfl c s

/-- A string that does not end at a character: taking that character with those after it is taking
it first. `receive` is what the interpreter makes of characters taken. -/
theorem run_cons_of_open {i j : Interpreter} {ctx : Context σ κ} {p : Payload} {c : Char}
    {receive : Collected → Delivery σ κ} (hopen : (p.feed c).isComplete = false)
    (hi : ∀ s, i.step c ⟨none, s⟩ ctx = (p.collect c ⟨none, s⟩).map receive)
    (hj : ∀ d s, j.step d ⟨none, s⟩ ctx =
      ((p.feed c).collect d ⟨none, s⟩).map fun r => receive { r with count := r.count + 1 })
    (hlast : receive ⟨p.feed c, 1, none, ⟨none, []⟩⟩ = ⟨j, ⟨none, []⟩, ctx⟩) (s : List Char) :
    i.run ⟨none, c :: s⟩ ctx = j.run ⟨none, s⟩ ctx := by
  cases s with
  | nil =>
    have hstep : i.step c ⟨none, []⟩ ctx = .ok ⟨j, ⟨none, []⟩, ctx⟩ := by
      rw [hi, Payload.collect_nil hopen, Except.map, hlast]
    exact run_of_step hstep
  | cons d s =>
    refine run_congr ?_
    rw [hi, hj, Payload.collect_cons hopen]
    cases (p.feed c).collect d ⟨none, s⟩ <;> rfl

theorem step_command {i : Interpreter} (h : i.state = .command) (c : Char) (ctx : Context σ κ)
    (s : List Char) :
    i.step c ⟨none, s⟩ ctx =
      ((i.command.payload.setLimit ctx.settings.payloadLimit).collect c ⟨none, s⟩).map
        (i.receiveCommand ctx) := by
  simp only [Interpreter.step, h, CommandString.process]
  cases (i.command.payload.setLimit ctx.settings.payloadLimit).collect c ⟨none, s⟩ with
  | error e => rfl
  | ok r =>
    obtain ⟨payload, count, next, input⟩ := r
    cases next <;> rfl

theorem step_skipped {i : Interpreter} (h : i.state = .skipped) (c : Char) (ctx : Context σ κ)
    (s : List Char) :
    i.step c ⟨none, s⟩ ctx =
      (i.skipped.payload.collect c ⟨none, s⟩).map (i.receiveSkipped ctx) := by
  simp only [Interpreter.step, h, SkippedString.process]
  cases i.skipped.payload.collect c ⟨none, s⟩ with
  | error e => rfl
  | ok r =>
    obtain ⟨payload, count, next, input⟩ := r
    cases next <;> rfl

theorem run_cons_command {x : Progress σ κ} (h : x.interpreter.state = .command) (c : Char)
    (s : List Char) : x.run (c :: s) = (x.tickCommand c).run s := by
  obtain ⟨i, ctx⟩ := x
  simp only [tickCommand]
  split
  · rename_i interrupt hstage
    have hstep := step_command h c ctx s
    rw [Payload.collect_of_ended hstage] at hstep
    refine (run_of_step hstep).trans ?_
    rw [← run_afterString]
    rfl
  · rename_i hstage
    refine run_cons_of_open (Payload.isComplete_eq_false hstage) (step_command h c ctx) ?_ rfl s
    intro d s
    rw [step_command rfl, Payload.setLimit_feed_setLimit]
    rfl

theorem run_cons_skipped {x : Progress σ κ} (h : x.interpreter.state = .skipped) (c : Char)
    (s : List Char) : x.run (c :: s) = (x.tickSkipped c).run s := by
  obtain ⟨i, ctx⟩ := x
  simp only [tickSkipped]
  split
  · rename_i interrupt hstage
    have hstep := step_skipped h c ctx s
    rw [Payload.collect_of_ended hstage] at hstep
    refine (run_of_step hstep).trans ?_
    have hcount : i.skipped.skipped + .ofNat 0 = i.skipped.skipped := UInt64.add_zero _
    simp only [Interpreter.receiveSkipped, hcount]
    rw [← run_afterString]
  · rename_i hstage
    refine run_cons_of_open (Payload.isComplete_eq_false hstage) (step_skipped h c ctx) ?_ rfl s
    intro d s
    rw [step_skipped rfl]
    refine congrArg (Except.map · _) (funext fun r => ?_)
    have hcount : i.skipped.skipped + .ofNat 1 + .ofNat r.count =
        i.skipped.skipped + .ofNat (r.count + 1) := by
      rw [UInt64.add_assoc, ← UInt64.ofNat_add, Nat.add_comm]
    simp only [Interpreter.receiveSkipped, hcount]

end Progress

/-! ### Looking ahead makes no difference -/

theorem Interpreter.TextDone.keepsText {i : Interpreter} (h : i.TextDone) : i.KeepsText :=
  .inr (.inr h.textRun)

theorem Interpreter.KeepsText.textDone {i : Interpreter} (h : i.KeepsText)
    (hready : i.state ≠ .ready) (htext : i.state ≠ .text) : i.TextDone :=
  ⟨htext, (h.resolve_left hready).resolve_left htext⟩

namespace Progress

variable {σ κ : Type} [Screen σ]

theorem textDone_tickEscape {x : Progress σ κ} (h : x.interpreter.textRun = .empty) (c : Char) :
    (x.tickEscape c).interpreter.TextDone := by
  refine ⟨?_, h⟩
  rcases x.interpreter.escape.process_spec c x.context with hstate | ⟨hstate, -⟩
  · simp [tickEscape, hstate]
  · exact hstate

theorem textDone_tickControl {x : Progress σ κ} (h : x.interpreter.textRun = .empty) (c : Char) :
    (x.tickControl c).interpreter.TextDone := by
  refine ⟨?_, h⟩
  rcases x.interpreter.control.process_spec c x.context with hstate | ⟨hstate | hstate, -⟩ <;>
    simp [tickControl, hstate]

theorem textDone_afterString {x : Progress σ κ} (h : x.interpreter.textRun = .empty)
    (interrupt : Option Char) : (x.afterString interrupt).interpreter.TextDone := by
  cases interrupt with
  | none => exact ⟨by simp [afterString, withState], h⟩
  | some c => exact textDone_tickEscape h c

theorem textDone_tickSkipped {x : Progress σ κ} (h : x.interpreter.textRun = .empty) (c : Char) :
    (x.tickSkipped c).interpreter.TextDone := by
  simp only [tickSkipped]
  split
  · apply textDone_afterString
    exact h
  · exact ⟨by simp, h⟩

theorem textDone_tickCommand [Clipboard κ] {x : Progress σ κ}
    (h : x.interpreter.textRun = .empty) (c : Char) :
    (x.tickCommand c).interpreter.TextDone := by
  simp only [tickCommand]
  split
  · apply textDone_afterString
    exact h
  · exact ⟨by simp, h⟩

theorem keepsText_addText (x : Progress σ κ) (c : Char) : (x.addText c).interpreter.KeepsText := by
  simp only [addText]
  split
  · exact (textDone_settle _).keepsText
  · exact .inr (.inl rfl)

theorem keepsText_begin (x : Progress σ κ) (c : Char) :
    ((x.settleBefore (some c)).begin c).interpreter.KeepsText := by
  by_cases hends : endsText c = true
  · have hsettle : x.settleBefore (some c) = x.settle := if_pos hends
    have htext := x.textDone_settle.textRun
    rw [hsettle]
    cases hc : Opening.ofChar c with
    | text =>
      rw [begin_of_text _ hc]
      exact keepsText_addText _ _
    | escape | control | command | skipped | nul | del | execute | ignored =>
      rw [begin, hc]
      exact .inr (.inr htext)
  · rcases Opening.ofChar_of_not_endsText (Bool.eq_false_iff.mpr hends) with rfl | ⟨-, hc⟩
    · exact .inl rfl
    · rw [begin_of_text _ hc]
      exact keepsText_addText _ _

variable [Clipboard κ]

/-- Outside of text a character is interpreted alike by itself and with others after it. -/
theorem run_cons {x : Progress σ κ} (hready : x.interpreter.state ≠ .ready)
    (htext : x.interpreter.state ≠ .text) (c : Char) (s : List Char) :
    x.run (c :: s) = (x.tick c).run s := by
  cases hstate : x.interpreter.state with
  | ready => exact absurd hstate hready
  | text => exact absurd hstate htext
  | escape => rw [run_cons_escape hstate, tick, hstate]
  | control => rw [run_cons_control hstate, tick, hstate]
  | command => rw [run_cons_command hstate, tick, hstate]
  | skipped => rw [run_cons_skipped hstate, tick, hstate]

/-- Outside of text no run of text comes into being. -/
theorem textDone_tick {x : Progress σ κ} (hready : x.interpreter.state ≠ .ready)
    (h : x.interpreter.TextDone) (c : Char) : (x.tick c).interpreter.TextDone := by
  unfold tick
  split
  · exact absurd ‹_› hready
  · exact absurd ‹_› h.state
  · exact textDone_tickEscape h.textRun c
  · exact textDone_tickControl h.textRun c
  · exact textDone_tickCommand h.textRun c
  · exact textDone_tickSkipped h.textRun c

theorem keepsText_tick {x : Progress σ κ} (h : x.interpreter.KeepsText) (c : Char) :
    (x.tick c).interpreter.KeepsText := by
  rcases h with h | h | h
  · rw [tick, h]
    exact keepsText_begin x c
  · rw [tick, h]
    exact keepsText_begin x c
  · unfold tick
    split
    · exact keepsText_begin x c
    · exact keepsText_begin x c
    · exact (textDone_tickEscape h c).keepsText
    · exact (textDone_tickControl h c).keepsText
    · exact (textDone_tickCommand h c).keepsText
    · exact (textDone_tickSkipped h c).keepsText

@[simp] theorem after_nil (x : Progress σ κ) : x.after [] = x := rfl

@[simp] theorem after_cons (x : Progress σ κ) (c : Char) (s : List Char) :
    x.after (c :: s) = (x.tick c).after s := rfl

theorem after_append (x : Progress σ κ) (s t : List Char) :
    x.after (s ++ t) = (x.after s).after t := List.foldl_append

theorem keepsText_after {x : Progress σ κ} (h : x.interpreter.KeepsText) (s : List Char) :
    (x.after s).interpreter.KeepsText := by
  induction s generalizing x with
  | nil => exact h
  | cons c s ih => exact ih (keepsText_tick h c)

/-- Looking ahead makes no difference: an interpreter that goes through its input gets as far as
one that takes the characters one by one and at last writes the run of text that waits. -/
theorem run_settleBefore {x : Progress σ κ} (h : x.interpreter.KeepsText) (s : List Char) :
    (x.settleBefore s.head?).run s = .ok ((x.after s).settle.toDelivery []) := by
  -- The induction is on the characters left; that a run only waits while nothing else is in
  -- progress carries it.
  induction s generalizing x with
  | nil =>
    rw [run_nil]
    rfl
  | cons c s ih =>
    refine Eq.trans ?_ (ih (keepsText_tick h c))
    by_cases htext : x.interpreter.state = .ready ∨ x.interpreter.state = .text
    · have htick : x.tick c = (x.settleBefore (some c)).begin c := by
        rcases htext with hstate | hstate <;> rw [tick, hstate]
      rw [htick]
      exact run_of_step (step_settleBefore htext c s)
    · rw [not_or] at htext
      obtain ⟨hready, hne⟩ := htext
      have hdone := h.textDone hready hne
      rw [settleBefore_of_textDone hdone, settleBefore_of_textDone (textDone_tick hready hdone c)]
      exact run_cons hready hne c s

/-- What an interpreter makes of its input when no run of text waits. -/
theorem runAll_eq_after {x : Progress σ κ} (h : x.interpreter.TextDone) (s : List Char) :
    x.interpreter.runAll ⟨none, s⟩ x.context = (x.after s).settle.toDelivery [] := by
  have hrun := run_settleBefore h.keepsText s
  rw [settleBefore_of_textDone h] at hrun
  exact Interpreter.valueOf_eq hrun _

end Progress

end ControlStream
