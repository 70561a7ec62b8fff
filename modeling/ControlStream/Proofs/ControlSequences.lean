import ControlStream.Proofs.Interchange

/-!
# Control sequences

How much a control sequence can hold, and what its body does. The control characters in a body have
the effect they have elsewhere, and the rest of it only decides what the final character does.

The limit on parameters is looked at when a separator arrives, so the parameter after the last
separator is one more than the limit if that many separators came before it; a parameter that is
completed by an intermediate is completed again by the final character.

## Main definitions

* `ControlSequence.Accepts`: what a character does to a sequence, case by case.
* `ControlSequence.Bounded`: how much a sequence holds.
* `ControlSequence.IsBody`, `ControlSequence.ofBody`: what may stand before the final character, and
  what is made of it.
* `Progress.inControl`: a control sequence is in progress.

## Main statements

* `ControlSequence.Bounded.accept`: a sequence holds no more than it may.
* `Progress.leadsTo_body`: the control characters in a body are executed, the others collected.
* `Terminal.Reachable.control_bounded`: what holds of every sequence, and which have no effect.
-/

namespace ControlStream

open ControlChar

def controlIntroducers : List (List Char) := [[esc, '['], [csi]]

namespace ControlSequence

variable {s : ControlSequence} {c : Char}

/-! ### Single characters -/

inductive Accepts (s : ControlSequence) (c : Char) : ControlSequence → Prop
  /-- The sequence is ignored from now on, if it was not before. -/
  | spoiled {next : ControlSequence} (hphase : next.phase = .ignore)
      (hparams : next.params = s.params) (hintermediates : next.intermediates = s.intermediates) :
    Accepts s c next
  /-- A marker or a digit. -/
  | inside {next : ControlSequence} (hin : s.inParams = true) (hseparator : isSeparator c = false)
      (hintermediate : isIntermediate c = false) (hphase : next.phase = .param)
      (hparams : next.params = s.params) (hintermediates : next.intermediates = s.intermediates) :
    Accepts s c next
  /-- A separator completes a parameter. -/
  | separator (hin : s.inParams = true) (hseparator : isSeparator c = true)
      (hintermediate : isIntermediate c = false) (hlength : s.params.length < maxParams) :
    Accepts s c { s.pushParam with phase := .param }
  /-- An intermediate completes the parameter in progress. -/
  | intermediate (hphase : s.phase ≠ .ignore) (hseparator : isSeparator c = false)
      (hintermediate : isIntermediate c = true)
      (hlength : s.intermediates.length < maxIntermediates) :
    Accepts s c { (if s.hasDigit then s.pushParam else s) with
      intermediates := s.intermediates ++ [c], phase := .intermediate }

theorem isSeparator_iff : isSeparator c = true ↔ c.toNat = 0x3A ∨ c.toNat = 0x3B := by
  simp only [isSeparator, Bool.or_eq_true, beq_iff_eq, ← Char.toNat_inj]
  exact or_comm

theorem not_separator_of_isIntermediate (h : isIntermediate c = true) : isSeparator c = false := by
  rw [← Bool.not_eq_true, isSeparator_iff]
  simp only [isIntermediate, inRange_iff] at h
  omega

theorem not_intermediate_of_isSeparator (h : isSeparator c = true) : isIntermediate c = false := by
  rw [← Bool.not_eq_true]
  intro hc
  rw [not_separator_of_isIntermediate hc] at h
  cases h

/-- Whatever is not among `!` to `/`, the space, `:` and `;` is not counted. -/
theorem not_counted (h : c.toNat < 0x20 ∨ 0x30 ≤ c.toNat ∧ c.toNat ≤ 0x39 ∨ 0x3C ≤ c.toNat) :
    isSeparator c = false ∧ isIntermediate c = false := by
  constructor
  · rw [← Bool.not_eq_true, isSeparator_iff]
    omega
  · rw [← Bool.not_eq_true]
    simp only [isIntermediate, inRange_iff]
    omega

theorem le_toNat_of_isMarker (h : isMarker c = true) : 0x3C ≤ c.toNat := by
  simp only [isMarker, List.contains_iff_mem, List.mem_cons, List.not_mem_nil, or_false] at h
  rcases h with rfl | rfl | rfl | rfl <;> decide

theorem accepts_accept (s : ControlSequence) (c : Char) : s.Accepts c (s.accept c) := by
  unfold accept
  split
  · exact .spoiled ‹_› rfl rfl
  · rename_i hphase
    split
    · rename_i hmarker
      obtain ⟨hentry, hmarker⟩ := hmarker
      obtain ⟨hseparator, hintermediate⟩ := not_counted (.inr (.inr (le_toNat_of_isMarker hmarker)))
      exact .inside (by simp [inParams, hentry]) hseparator hintermediate rfl rfl rfl
    · split
      · rename_i hdigit
        obtain ⟨hin, hdigit⟩ := hdigit
        rw [isDecimal, inRange_iff] at hdigit
        obtain ⟨hseparator, hintermediate⟩ := not_counted (.inr (.inl hdigit))
        exact .inside hin hseparator hintermediate rfl rfl rfl
      · split
        · rename_i hseparator
          unfold addSeparator
          split
          · exact .spoiled rfl rfl rfl
          · rename_i hlength
            have hintermediate := not_intermediate_of_isSeparator hseparator.2
            exact .separator hseparator.1 hseparator.2 hintermediate (by omega)
        · split
          · rename_i hintermediate
            unfold addIntermediate
            split
            · exact .spoiled rfl rfl rfl
            · rename_i hlength
              have hseparator := not_separator_of_isIntermediate hintermediate
              have hkept : (if s.hasDigit then s.pushParam else s).intermediates =
                  s.intermediates := by
                split <;> rfl
              simp only [hkept]
              exact .intermediate hphase hseparator hintermediate (by omega)
          · exact .spoiled rfl rfl rfl

/-- The characters that go on with a control sequence: none that ends it or breaks it off. -/
def IsContinuation (c : Char) : Prop := c ≠ esc ∧ c ≠ can ∧ c ≠ sub ∧ isControlFinal c = false

instance (c : Char) : Decidable (IsContinuation c) :=
  inferInstanceAs (Decidable (c ≠ esc ∧ c ≠ can ∧ c ≠ sub ∧ isControlFinal c = false))

/-- Add a character that goes on with a sequence. Control characters of the C0 set and DEL are not
part of it. -/
def absorb (s : ControlSequence) (c : Char) : ControlSequence :=
  if isExecutable c ∨ c = nul ∨ c = del then s else s.accept c

variable {σ κ : Type} [Screen σ] {ctx : Context σ κ}

/-- A character that goes on with a sequence is executed, or it is added; then at most an event is
noted. -/
theorem process_of_continuation (s : ControlSequence) (ctx : Context σ κ)
    (hc : IsContinuation c) :
    ∃ ctx', s.process c ctx = ⟨.control, s.absorb c, ctx'⟩ ∧
      ctx'.toHost = if isExecutable c then (ctx.executeControl c).toHost else ctx.toHost := by
  obtain ⟨hesc, hcan, hsub, hfinal⟩ := hc
  have hbreak : ¬ (c = can ∨ c = sub) := by simp [hcan, hsub]
  unfold process absorb
  rw [if_neg hesc, if_neg hbreak]
  by_cases hexecutable : isExecutable c = true
  · simp only [hexecutable, if_true, true_or]
    exact ⟨_, rfl, rfl⟩
  · simp only [hexecutable, hfinal, if_false, false_or, Bool.false_eq_true]
    by_cases hdropped : c = nul ∨ c = del
    · simp only [hdropped, if_true]
      exact ⟨_, rfl, rfl⟩
    · simp only [hdropped, if_false]
      split <;> exact ⟨_, rfl, rfl⟩

/-- A final character ends the sequence. -/
theorem process_of_final (hc : isControlFinal c = true) :
    s.process c ctx = ⟨.ready, initial,
      if s.phase = .ignore then ctx.log (.malformedCsi c) else s.finish c ctx⟩ := by
  have hrange := hc
  rw [isControlFinal, inRange_iff] at hrange
  have hne : ∀ d : Char, isControlFinal d = false → c ≠ d := by
    rintro d hd rfl
    rw [hc] at hd
    cases hd
  have hexecutable : isExecutable c = false := by
    rw [← Bool.not_eq_true]
    simp only [isExecutable, Bool.and_eq_true, inRange_iff]
    omega
  simp only [process, hne esc rfl, hne can rfl, hne sub rfl, hne nul rfl, hne del rfl,
    hexecutable, hc, or_self, if_false, if_true, Bool.false_eq_true]
  split <;> rfl

/-! ### How much a sequence holds -/

/-- A sequence holds one parameter more than the limit at most, and only once no more parameters can
come. -/
structure Bounded (s : ControlSequence) : Prop where
  params : s.params.length ≤ maxParams + 1
  inside : s.inParams = true → s.params.length ≤ maxParams
  noDigit : s.phase = .intermediate → s.hasDigit = false
  intermediates_ne : s.phase = .intermediate → s.intermediates ≠ []
  intermediates : s.intermediates.length ≤ maxIntermediates

theorem bounded_initial : initial.Bounded where
  params := Nat.zero_le _
  inside _ := Nat.zero_le _
  noDigit _ := rfl
  intermediates_ne h := by cases h
  intermediates := Nat.zero_le _

theorem inParams_of_ne (hignore : s.phase ≠ .ignore) (hintermediate : s.phase ≠ .intermediate) :
    s.inParams = true := by
  cases hs : s.phase with
  | entry => simp [inParams, hs]
  | param => simp [inParams, hs]
  | intermediate => exact absurd hs hintermediate
  | ignore => exact absurd hs hignore

theorem Bounded.accept (h : s.Bounded) (c : Char) : (s.accept c).Bounded := by
  generalize hnext : s.accept c = next
  have haccepts := accepts_accept s c
  rw [hnext] at haccepts
  cases haccepts with
  | spoiled hphase hparams hintermediates =>
    refine ⟨hparams ▸ h.params, ?_, ?_, ?_, hintermediates ▸ h.intermediates⟩
    · simp [inParams, hphase]
    · simp [hphase]
    · simp [hphase]
  | inside hin _ _ hphase hparams hintermediates =>
    refine ⟨hparams ▸ h.params, fun _ => hparams ▸ h.inside hin, ?_, ?_,
      hintermediates ▸ h.intermediates⟩
    · simp [hphase]
    · simp [hphase]
  | separator hin _ _ hlength =>
    have hpush : (s.params ++ [s.value]).length ≤ maxParams := by
      rw [List.length_append, List.length_singleton]
      omega
    exact ⟨by simp only [pushParam]; omega, fun _ => hpush, nofun, nofun, h.intermediates⟩
  | intermediate hphase _ _ hlength =>
    -- Parameters are completed here only once: afterwards none is in progress.
    have hparams : (if s.hasDigit then s.pushParam else s).params.length ≤ maxParams + 1 ∧
        (if s.hasDigit then s.pushParam else s).hasDigit = false := by
      by_cases hdigit : s.hasDigit = true
      · have hlength := h.inside (inParams_of_ne hphase fun hs => by simp [h.noDigit hs] at hdigit)
        simp only [hdigit, if_true, pushParam, List.length_append, List.length_singleton]
        exact ⟨by omega, trivial⟩
      · simp only [hdigit, if_false, Bool.false_eq_true]
        exact ⟨h.params, trivial⟩
    obtain ⟨hparams, hdigit⟩ := hparams
    refine ⟨hparams, nofun, fun _ => hdigit, fun _ => by simp, ?_⟩
    simp only [List.length_append, List.length_singleton]
    omega

/-- The parameters that the final character acts on are two more than the limit at most, and without
intermediates one more. -/
theorem Bounded.length_finalParams_le (h : s.Bounded) (hphase : s.phase ≠ .ignore) :
    s.finalParams.length ≤ maxParams + 2 ∧
      (s.intermediates = [] → s.finalParams.length ≤ maxParams + 1) := by
  have hlength : s.finalParams.length ≤ s.params.length + 1 := by
    unfold finalParams pushParam
    split <;> simp
  have hparams := h.params
  refine ⟨by omega, fun hnone => ?_⟩
  have hinside := h.inside (inParams_of_ne hphase fun hs => h.intermediates_ne hs hnone)
  omega

/-! ### Bodies -/

/-- `body` may stand before a final character. -/
def IsBody (body : List Char) : Prop := ∀ c ∈ body, IsContinuation c

instance (body : List Char) : Decidable (IsBody body) := List.decidableBAll IsContinuation body

def ofBody (body : List Char) : ControlSequence := body.foldl absorb initial

/-- Unless it is ignored, a sequence has `separators` separators and `intermediates` intermediates,
and had no more separators than are allowed. -/
structure Counts (s : ControlSequence) (separators intermediates : Nat) : Prop where
  bounded : s.Bounded
  separators_le : s.phase ≠ .ignore → separators ≤ maxParams
  params : s.inParams = true → s.params.length = separators
  intermediates_eq : s.phase ≠ .ignore → s.intermediates.length = intermediates

namespace Counts

variable {n m : Nat}

theorem accept (h : s.Counts n m) (c : Char) :
    (s.accept c).Counts (n + if isSeparator c then 1 else 0)
      (m + if isIntermediate c then 1 else 0) := by
  have hbounded := h.bounded.accept c
  generalize hnext : s.accept c = next at hbounded ⊢
  have haccepts := accepts_accept s c
  rw [hnext] at haccepts
  cases haccepts with
  | spoiled hphase _ _ =>
    refine ⟨hbounded, ?_, ?_, ?_⟩
    · simp [hphase]
    · simp [inParams, hphase]
    · simp [hphase]
  | inside hin hseparator hintermediate hphase hparams hintermediates =>
    have hopen : s.phase ≠ .ignore := by
      intro hs
      simp [inParams, hs] at hin
    simp only [hseparator, hintermediate, Bool.false_eq_true, if_false, Nat.add_zero]
    exact ⟨hbounded, fun _ => h.separators_le hopen, fun _ => hparams ▸ h.params hin,
      fun _ => hintermediates ▸ h.intermediates_eq hopen⟩
  | separator hin hseparator hintermediate hlength =>
    have hopen : s.phase ≠ .ignore := by
      intro hs
      simp [inParams, hs] at hin
    have hparams := h.params hin
    simp only [hseparator, hintermediate, Bool.false_eq_true, if_false, if_true, Nat.add_zero]
    refine ⟨hbounded, fun _ => by omega, fun _ => ?_, fun _ => h.intermediates_eq hopen⟩
    simp only [pushParam, List.length_append, List.length_singleton]
    omega
  | intermediate hphase hseparator hintermediate _ =>
    have hlength := h.intermediates_eq hphase
    simp only [hseparator, hintermediate, Bool.false_eq_true, if_false, if_true, Nat.add_zero]
    refine ⟨hbounded, fun _ => h.separators_le hphase, nofun, fun _ => ?_⟩
    simp only [List.length_append, List.length_singleton]
    omega

/-- Characters that are not part of the sequence are not counted. -/
theorem absorb (h : s.Counts n m) (c : Char) :
    (s.absorb c).Counts (n + if isSeparator c then 1 else 0)
      (m + if isIntermediate c then 1 else 0) := by
  unfold ControlSequence.absorb
  split
  · rename_i hc
    have hnone : isSeparator c = false ∧ isIntermediate c = false := by
      refine not_counted ?_
      rcases hc with hc | rfl | rfl
      · simp only [isExecutable, Bool.and_eq_true, inRange_iff] at hc
        omega
      · exact .inl (by decide)
      · exact .inr (.inr (by decide))
    simp only [hnone, Bool.false_eq_true, if_false, Nat.add_zero]
    exact h
  · exact h.accept c

theorem foldl_absorb (h : s.Counts n m) (body : List Char) :
    (body.foldl ControlSequence.absorb s).Counts (n + body.countP isSeparator)
      (m + body.countP isIntermediate) := by
  induction body generalizing s n m with
  | nil => exact h
  | cons c body ih =>
    rw [List.countP_cons, List.countP_cons, ← Nat.add_assoc, ← Nat.add_assoc,
      Nat.add_right_comm n, Nat.add_right_comm m]
    exact ih (h.absorb c)

end Counts

theorem counts_ofBody (body : List Char) :
    (ofBody body).Counts (body.countP isSeparator) (body.countP isIntermediate) := by
  have hinitial : initial.Counts 0 0 :=
    ⟨bounded_initial, fun _ => Nat.zero_le _, fun _ => rfl, fun _ => rfl⟩
  have hbody := hinitial.foldl_absorb body
  rwa [Nat.zero_add, Nat.zero_add] at hbody

/-- A sequence with too many separators, or with any intermediates, is ignored. -/
theorem finish_ofBody {body : List Char}
    (h : maxParams < body.countP isSeparator ∨ 0 < body.countP isIntermediate)
    (hphase : (ofBody body).phase ≠ .ignore) (final : Char) (ctx : Context σ κ) :
    ∃ e, (ofBody body).finish final ctx = ctx.log e := by
  have hcounts := counts_ofBody body
  have hne : (ofBody body).intermediates ≠ [] := by
    have hlength := hcounts.intermediates_eq hphase
    have hseparators := hcounts.separators_le hphase
    rw [← List.length_pos_iff]
    omega
  simp only [finish, hne, false_and, and_false, if_false]
  exact ⟨_, rfl⟩

theorem Bounded.process (h : s.Bounded) (c : Char) (ctx : Context σ κ) :
    (s.process c ctx).part.Bounded := by
  rw [s.process_eq_step]
  cases s.role c with
  | introducer | canceller | malformedFinal | final => exact bounded_initial
  | executed | filler => exact h
  | overrun | accepted => exact h.accept c

end ControlSequence

/-! ### What the characters of a sequence do -/

/-- Every executable character is executed when nothing is in progress. -/
theorem Opening.ofChar_of_isExecutable {c : Char} (h : isExecutable c = true) :
    ofChar c = .execute := by
  have hne : ∀ d : Char, isExecutable d = false → c ≠ d := by
    rintro d hd rfl
    rw [h] at hd
    cases hd
  have hskipped : c ∉ skippedOpeners := by
    intro hc
    simp only [skippedOpeners, List.mem_cons, List.not_mem_nil, or_false] at hc
    rcases hc with hc | hc | hc | hc <;> exact hne _ rfl hc
  simp [ofChar, hne esc rfl, hne csi rfl, hne osc rfl, hne ControlChar.nul rfl,
    hne ControlChar.del rfl, hskipped, h]

namespace Progress

variable {σ κ : Type} {x : Progress σ κ}

def inControl (x : Progress σ κ) (s : ControlSequence) : Progress σ κ :=
  ⟨{ x.interpreter with state := .control, control := s }, x.context⟩

theorem textDone_inControl (htext : x.interpreter.textRun = .empty) (s : ControlSequence) :
    (x.inControl s).interpreter.TextDone := ⟨by simp [inControl], htext⟩

variable [Screen σ]

theorem control_begin (x : Progress σ κ) (c : Char) :
    (x.begin c).interpreter.control = x.interpreter.control := by
  cases hc : Opening.ofChar c with
  | text =>
    rw [begin_of_text _ hc, addText]
    split <;> rfl
  | escape | control | command | skipped | nul | del | execute | ignored =>
    simp only [begin, hc, withState]

theorem control_settleBefore (x : Progress σ κ) (next : Option Char) :
    (x.settleBefore next).interpreter.control = x.interpreter.control := by
  unfold settleBefore
  split <;> rfl

theorem control_afterString (x : Progress σ κ) (interrupt : Option Char) :
    (x.afterString interrupt).interpreter.control = x.interpreter.control := by
  cases interrupt <;> rfl

def executed (x : Progress σ κ) (s : List Char) : Progress σ κ :=
  ⟨x.interpreter, s.foldl Context.executeControl x.context⟩

/-- A single character is executed if it can be. -/
theorem toHost_executed_filter (x : Progress σ κ) (c : Char) :
    (x.executed ([c].filter isExecutable)).context.toHost =
      if isExecutable c then (x.context.executeControl c).toHost else x.context.toHost := by
  split
  · rename_i hexecutable
    rw [List.filter_cons_of_pos hexecutable]
    rfl
  · rename_i hexecutable
    rw [List.filter_cons_of_neg hexecutable]
    rfl

variable [Clipboard κ]

theorem tick_inControl (x : Progress σ κ) (s : ControlSequence) (c : Char) :
    (x.inControl s).tick c =
      ⟨{ x.interpreter with
          state := (s.process c x.context).state
          control := (s.process c x.context).part }, (s.process c x.context).context⟩ := rfl

/-- With nothing in progress, control characters have their effect and no other. -/
theorem leadsTo_executed (hidle : x.interpreter.Idle) {s : List Char}
    (hs : ∀ c ∈ s, isExecutable c = true) : x.LeadsTo s (x.executed s) := by
  induction s generalizing x with
  | nil => exact .of_textless hidle.textDone
  | cons c s ih =>
    rw [List.forall_mem_cons] at hs
    obtain ⟨hc, hs⟩ := hs
    have htick : x.tick c = x.executed [c] := by
      rw [tick_of_ready hidle.textDone hidle.ready, begin, Opening.ofChar_of_isExecutable hc,
        executed, ← hidle.ready]
      rfl
    have hfirst : x.LeadsTo [c] (x.executed [c]) := by
      apply LeadsTo.single
      · exact hidle.textDone
      · exact hidle.textDone
      · rw [htick]
        exact .refl _
    exact hfirst.append (ih (x := x.executed [c]) hidle hs)

/-- If single characters are executed or taken into account, then so are several. What was taken
into account is put into the interpreter. -/
theorem leadsTo_foldl {α : Type} {put : Progress σ κ → α → Progress σ κ} {absorb : α → Char → α}
    {p : Char → Prop}
    (hdone : ∀ {x : Progress σ κ}, x.interpreter.textRun = .empty → ∀ s,
      (put x s).interpreter.TextDone)
    (hstep : ∀ {x : Progress σ κ}, x.interpreter.textRun = .empty → ∀ s {c : Char}, p c →
      (put x s).LeadsTo [c] (put (x.executed ([c].filter isExecutable)) (absorb s c)))
    (htext : x.interpreter.textRun = .empty) (s : α) {l : List Char} (hl : ∀ c ∈ l, p c) :
    (put x s).LeadsTo l (put (x.executed (l.filter isExecutable)) (l.foldl absorb s)) := by
  induction l generalizing x s with
  | nil => exact .of_textless (hdone htext s)
  | cons c l ih =>
    rw [List.forall_mem_cons] at hl
    have hfirst := hstep htext s hl.1
    have hrest := ih (x := x.executed ([c].filter isExecutable)) htext (absorb s c) hl.2
    -- What the first character does comes before what the rest does.
    have hexecuted : (x.executed ([c].filter isExecutable)).executed (l.filter isExecutable) =
        x.executed ((c :: l).filter isExecutable) := by
      rw [executed, executed, ← List.foldl_append, ← List.filter_append]
      rfl
    rw [hexecuted] at hrest
    exact hfirst.append hrest

section InControl

variable (htext : x.interpreter.textRun = .empty) (s : ControlSequence)
include htext

theorem leadsTo_continuation {c : Char} (hc : ControlSequence.IsContinuation c) :
    (x.inControl s).LeadsTo [c]
      ((x.executed ([c].filter isExecutable)).inControl (s.absorb c)) := by
  obtain ⟨ctx, hprocess, hhost⟩ := s.process_of_continuation x.context hc
  apply LeadsTo.single
  · exact textDone_inControl htext s
  · exact textDone_inControl htext _
  · rw [tick_inControl, hprocess]
    exact ⟨rfl, hhost.trans (toHost_executed_filter x c).symm⟩

/-- The control characters in a body are executed, and the others make up the sequence. -/
theorem leadsTo_body {body : List Char} (hbody : ControlSequence.IsBody body) :
    (x.inControl s).LeadsTo body ((x.executed (body.filter isExecutable)).inControl
      (body.foldl ControlSequence.absorb s)) :=
  leadsTo_foldl textDone_inControl leadsTo_continuation htext s hbody

end InControl

section Idle

variable (hidle : x.interpreter.Idle)
include hidle

omit [Screen σ] [Clipboard κ] in
theorem inControl_initial : x.withState .control = x.inControl .initial := by
  rw [withState, inControl, ← hidle.clear.control]

theorem leadsTo_controlIntroducer {i : List Char} (hi : i ∈ controlIntroducers) :
    x.LeadsTo i (x.inControl .initial) := by
  rw [← inControl_initial hidle]
  simp only [controlIntroducers, List.mem_cons, List.not_mem_nil, or_false] at hi
  rcases hi with rfl | rfl
  · exact leadsTo_opener hidle rfl
  · exact leadsTo_single hidle.textDone hidle.ready (by simp) rfl

/-- The final character ends the sequence, and nothing but its effect is left. -/
theorem leadsTo_final (s : ControlSequence) {c : Char} (hc : isControlFinal c = true) :
    (x.inControl s).LeadsTo [c] ⟨x.interpreter,
      if s.phase = .ignore then x.context.log (.malformedCsi c) else s.finish c x.context⟩ := by
  apply LeadsTo.single
  · exact textDone_inControl hidle.textRun s
  · exact hidle.textDone
  · rw [tick_inControl, ControlSequence.process_of_final hc, ← hidle.clear.control, ← hidle.ready]
    exact .refl _

/-- The final character has no effect after too many separators, or after any intermediates. -/
theorem leadsTo_final_of_many {body : List Char} {final : Char}
    (hfinal : isControlFinal final = true)
    (hmany : ControlSequence.maxParams < body.countP ControlSequence.isSeparator ∨
      0 < body.countP isIntermediate) :
    (x.inControl (.ofBody body)).LeadsTo [final] x := by
  have hended := leadsTo_final hidle (.ofBody body) hfinal
  by_cases hphase : (ControlSequence.ofBody body).phase = .ignore
  · rw [if_pos hphase] at hended
    exact hended.trans_same ⟨rfl, rfl⟩
  · obtain ⟨e, he⟩ := ControlSequence.finish_ofBody hmany hphase final x.context
    rw [if_neg hphase, he] at hended
    exact hended.trans_same ⟨rfl, rfl⟩

/-- A sequence without effect leads where the control characters in it lead. -/
theorem control_meetAfter {i body : List Char} {final : Char} (hi : i ∈ controlIntroducers)
    (hbody : ControlSequence.IsBody body) (hfinal : isControlFinal final = true)
    (hmany : ControlSequence.maxParams < body.countP ControlSequence.isSeparator ∨
      0 < body.countP isIntermediate) :
    x.MeetAfter (i ++ body ++ [final]) (body.filter isExecutable) := by
  have hopened := leadsTo_controlIntroducer hidle hi
  have hread := leadsTo_body hidle.textRun .initial hbody
  -- The control characters leave nothing in progress, so the final character finds `x` again but
  -- for what they did.
  have hended :=
    leadsTo_final_of_many (x := x.executed (body.filter isExecutable)) hidle hfinal hmany
  have hexecuted := leadsTo_executed hidle (s := body.filter isExecutable)
    fun c hc => (List.mem_filter.mp hc).2
  exact ((hopened.append hread).append hended).meetAfter hexecuted

end Idle

/-! ### Every control sequence is bounded -/

/-- Only a control sequence in progress takes characters. -/
theorem control_tick (x : Progress σ κ) (c : Char) :
    (x.tick c).interpreter.control = x.interpreter.control ∨
      (x.tick c).interpreter.control = (x.interpreter.control.process c x.context).part := by
  unfold tick
  split
  · exact .inl ((control_begin _ c).trans (control_settleBefore x _))
  · exact .inl ((control_begin _ c).trans (control_settleBefore x _))
  · exact .inl rfl
  · exact .inr rfl
  · left
    simp only [tickCommand]
    split
    · exact control_afterString _ _
    · rfl
  · left
    simp only [tickSkipped]
    split
    · exact control_afterString _ _
    · rfl

theorem bounded_tick (h : x.interpreter.control.Bounded) (c : Char) :
    (x.tick c).interpreter.control.Bounded := by
  rcases x.control_tick c with hcontrol | hcontrol
  · rwa [hcontrol]
  · rw [hcontrol]
    exact h.process c x.context

theorem bounded_after (h : x.interpreter.control.Bounded) (s : List Char) :
    (x.after s).interpreter.control.Bounded := by
  induction s generalizing x with
  | nil => exact h
  | cons c s ih => exact ih (bounded_tick h c)

end Progress

namespace Terminal

variable {σ κ : Type} [Screen σ] [Clipboard κ] {t : Terminal σ κ}

theorem Reachable.bounded (h : t.Reachable) : t.interpreter.control.Bounded := by
  induction h with
  | onScreen screen clipboard settings => exact ControlSequence.bounded_initial
  | write ht s ih =>
    rw [write_eq ht.atRest]
    exact Progress.bounded_after (x := Terminal.progress _) ih s
  | reset _ _ => exact ControlSequence.bounded_initial
  | modifyStore _ _ ih => exact ih
  | modifyScreen _ _ ih => exact ih
  | takeReplies _ ih => exact ih

/-- At any time a control sequence holds at most one parameter more than the limit, and at most two
intermediates; its final character acts on no more parameters than that, unless there are
intermediates and then there is nothing to act on. A sequence with too many separators, or with any
intermediates, has no effect but that of the control characters in it. -/
theorem Reachable.control_bounded (h : t.Reachable) :
    (∀ s : List Char,
      let control := (t.progress.after s).interpreter.control
      control.params.length ≤ ControlSequence.maxParams + 1 ∧
        control.intermediates.length ≤ ControlSequence.maxIntermediates ∧
        (control.phase ≠ .ignore →
          control.finalParams.length ≤ ControlSequence.maxParams + 2 ∧
            (control.intermediates = [] →
              control.finalParams.length ≤ ControlSequence.maxParams + 1))) ∧
    ∀ {i body : List Char} {final : Char}, t.state = .ready → i ∈ controlIntroducers →
      ControlSequence.IsBody body → isControlFinal final = true →
      (ControlSequence.maxParams < body.countP ControlSequence.isSeparator ∨
        0 < body.countP isIntermediate) →
      t.Interchangeable (i ++ body ++ [final]) (body.filter isExecutable) := by
  constructor
  · intro s control
    have hbounded : control.Bounded := Progress.bounded_after (x := t.progress) h.bounded s
    exact ⟨hbounded.params, hbounded.intermediates, hbounded.length_finalParams_le⟩
  · intro i body final hready hi hbody hfinal hmany
    exact h.atRest.interchangeable hready fun hidle =>
      Progress.control_meetAfter hidle hi hbody hfinal hmany

/-- A sequence with a separator too many, and a line feed in it. -/
theorem control_bounded_lineFeed :
    let t := onPage (.empty 80) .standard
    let body := List.replicate 33 ';' ++ [lf, '4']
    t.Reachable ∧ ControlSequence.IsBody body ∧
      t.Interchangeable ([csi] ++ body ++ ['h']) [lf] := by
  have hreachable : (onPage (.empty 80) .standard).Reachable := .onScreen _ _ _
  have hbody : ControlSequence.IsBody (List.replicate 33 ';' ++ [lf, '4']) := by decide
  exact ⟨hreachable, hbody, (Reachable.control_bounded hreachable).2 rfl (by decide) hbody rfl
    (.inl (by decide))⟩

/-- A sequence with as many separators as the limit has one parameter more, and the final character
acts on it: here it turns the insert mode on. -/
theorem control_not_bounded_insertMode :
    let t := onPage (.empty 80) .standard
    let body := List.replicate 32 ';' ++ ['4']
    let control := (t.progress.after ([esc, '['] ++ body)).interpreter.control
    t.Reachable ∧ t.state = .ready ∧ t.insertMode = false ∧
      control.finalParams.length = ControlSequence.maxParams + 1 ∧
      (t.write ([esc, '['] ++ body ++ ['h'])).insertMode = true := by
  have hreachable : (onPage (.empty 80) .standard).Reachable := .onScreen _ _ _
  refine ⟨hreachable, rfl, rfl, rfl, ?_⟩
  rw [write_eq hreachable.atRest]
  rfl

end Terminal

end ControlStream
