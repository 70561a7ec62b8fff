import ControlStream.Proofs.GraphicStream

/-!
# Single shifts

A single shift is for the next character that is printed. What stands between the two makes no
difference, as long as it neither prints nor does anything to the character sets. A locking shift
that comes first takes the single shift back.

## Main definitions

* `Inert`: text that prints nothing and leaves the character sets alone.
* `IsFiller`: sequences and strings that are inert.

## Main statements

* `inert_flatten`: fillers are inert, however many there are.
* `Terminal.textShown_concat`: the character set that each character is sent through.
* `Terminal.charset_selection`: the same for all that can be done to the character sets and for
  streams, with the character that a single shift is for.
-/

namespace ControlStream

open ControlChar
open GraphicStep (shift? onAll shownAll)

/-! ### Text that does nothing to the character sets -/

namespace Reading

/-- Where nothing is being read, it does not matter what was. -/
theorem steps_of_ground {r : Reading} (h : r.framing = .ground) (s : List Char) :
    r.steps s = ground.steps s ∧ (r.after s).framing = (ground.after s).framing := by
  cases s with
  | nil => exact ⟨rfl, h⟩
  | cons c s =>
    have hstep : r.step? c = ground.step? c := by
      simp only [step?, h, ground]
    have hnext : r.next c = ground.next c := by
      simp only [next, h, ground]
    simp only [steps, after, List.foldl_cons, hstep, hnext, and_self]

/-- Wherever ESC stands, an escape sequence begins. -/
theorem steps_esc (r : Reading) (c : Char) (s : List Char) :
    r.steps (esc :: c :: s) =
      (EscapeSequence.initial.step? c).toList ++ ((r.next esc).next c).steps s := by
  obtain ⟨framing, escape⟩ := r
  rcases framing with _ | bare | _ | ⟨command?, _ | _⟩ <;> rfl

/-- A final character that opens nothing ends what was being read. -/
theorem framing_after_esc (r : Reading) {c : Char} (hc : c ∈ ['N', 'O', '\\']) :
    ((r.next esc).next c).framing = .ground := by
  have hopened : Framing.afterEscape true c = .ground := by
    simp only [List.mem_cons, List.not_mem_nil, or_false] at hc
    rcases hc with rfl | rfl | rfl <;> rfl
  obtain ⟨framing, escape⟩ := r
  rcases framing with _ | bare | _ | ⟨command?, _ | _⟩
  · exact hopened
  · exact hopened
  · exact hopened
  · exact (ite_eq_left_iff.mpr fun _ => hopened)
  · exact hopened

end Reading

/-- Text that prints nothing and leaves the character sets alone, and after which nothing is being
read any more. -/
structure Inert (s : List Char) : Prop where
  steps_eq : Reading.ground.steps s = []
  framing_eq : (Reading.ground.after s).framing = .ground

theorem Inert.append {s t : List Char} (h : Inert s) (h' : Inert t) : Inert (s ++ t) := by
  obtain ⟨hsteps, hframing⟩ := Reading.steps_of_ground h.framing_eq t
  constructor
  · rw [Reading.steps_append, h.steps_eq, hsteps, h'.steps_eq]
    rfl
  · rw [Reading.after_append, hframing]
    exact h'.framing_eq

/-- Sequences and strings that do nothing to the character sets. -/
inductive IsFiller : List Char → Prop
  | nul : IsFiller [nul]
  /-- A control sequence. Control characters that are executed may stand in it, but no shifts. -/
  | control {i body : List Char} {final : Char} (hi : i ∈ controlIntroducers)
    (hbody : ControlSequence.IsBody body) (hshifts : so ∉ body ∧ si ∉ body)
    (hfinal : isControlFinal final = true) : IsFiller (i ++ (body ++ [final]))
  | command (command : WrittenCommand) : IsFiller command.text
  | skipped {i payload e : List Char} (hi : i ∈ skippedIntroducers) (hpayload : IsPayload payload)
    (he : e ∈ stringTerminators) : IsFiller (i ++ (payload ++ e))

/-- What is read in a string and at its end does nothing to the character sets. -/
theorem Reading.steps_string {payload e : List Char} (hpayload : IsPayload payload)
    (he : e ∈ stringTerminators) (command? : Option (List Char)) (escape : EscapeSequence) :
    (⟨.string command? false, escape⟩ : Reading).steps (payload ++ e) = [] ∧
      ((⟨.string command? false, escape⟩ : Reading).after (payload ++ e)).framing = .ground := by
  induction payload generalizing command? escape with
  | nil =>
    simp only [stringTerminators, List.mem_cons, List.not_mem_nil, or_false] at he
    rcases he with rfl | rfl | rfl <;> exact ⟨rfl, rfl⟩
  | cons c payload ih =>
    rw [IsPayload, List.forall_mem_cons] at hpayload
    obtain ⟨⟨hbel, hst, hesc⟩, hrest⟩ := hpayload
    have hnext : (⟨.string command? false, escape⟩ : Reading).next c =
        ⟨.string (command?.map (· ++ [c])) false, .initial⟩ := by
      simp only [next, Framing.next, hbel, hst, hesc, or_self, if_false]
    have hnone : (⟨.string command? false, escape⟩ : Reading).step? c = none := rfl
    rw [List.cons_append, steps, after, List.foldl_cons, hnone, hnext]
    exact ih hrest _ _

/-- What is read in a control sequence without shifts and at its end does nothing to the character
sets. -/
theorem Reading.steps_control {body : List Char} (hbody : ControlSequence.IsBody body)
    (hshifts : so ∉ body ∧ si ∉ body) {final : Char} (hfinal : isControlFinal final = true)
    (escape : EscapeSequence) :
    (⟨.control, escape⟩ : Reading).steps (body ++ [final]) = [] ∧
      ((⟨.control, escape⟩ : Reading).after (body ++ [final])).framing = .ground := by
  induction body generalizing escape with
  | nil =>
    have hne : ∀ c, isControlFinal c = false → final ≠ c := by
      rintro c hc rfl
      rw [hfinal] at hc
      cases hc
    have hstep : (⟨.control, escape⟩ : Reading).step? final = none := by
      simp only [step?, shift?, hne so rfl, hne si rfl, if_false]
    have hnext : ((⟨.control, escape⟩ : Reading).next final).framing = .ground := by
      simp only [next, Framing.next, Framing.afterControl, hne esc rfl, hfinal, if_true, if_false,
        ite_self]
    rw [List.nil_append, steps, hstep]
    exact ⟨rfl, hnext⟩
  | cons c body ih =>
    rw [ControlSequence.IsBody, List.forall_mem_cons] at hbody
    rw [List.mem_cons, List.mem_cons, not_or, not_or] at hshifts
    obtain ⟨⟨hesc, hcan, hsub, hopen⟩, hrest⟩ := hbody
    obtain ⟨⟨hso, hso'⟩, hsi, hsi'⟩ := hshifts
    have hstep : (⟨.control, escape⟩ : Reading).step? c = none := by
      simp only [step?, shift?, Ne.symm hso, Ne.symm hsi, if_false]
    have hnext : (⟨.control, escape⟩ : Reading).next c = ⟨.control, .initial⟩ := by
      simp only [next, Framing.next, Framing.afterControl, hesc, hcan, hsub, hopen, or_self,
        if_false, Bool.false_eq_true]
    rw [List.cons_append, steps, after, List.foldl_cons, hstep, hnext]
    exact ih hrest ⟨hso', hsi'⟩ .initial

theorem IsFiller.inert {s : List Char} (h : IsFiller s) : Inert s := by
  cases h with
  | nul => exact ⟨rfl, rfl⟩
  | @control i body final hi hbody hshifts hfinal =>
    have hinside := Reading.steps_control hbody hshifts hfinal .initial
    simp only [controlIntroducers, List.mem_cons, List.not_mem_nil, or_false] at hi
    rcases hi with rfl | rfl <;> exact ⟨hinside.1, hinside.2⟩
  | command command =>
    have hinside := Reading.steps_string command.isPayload command.terminator_mem (some []) .initial
    have hi := command.introducer_mem
    simp only [commandIntroducers, List.mem_cons, List.not_mem_nil, or_false] at hi
    unfold WrittenCommand.text
    rcases hi with hi | hi <;> rw [hi] <;> exact ⟨hinside.1, hinside.2⟩
  | @skipped i payload e hi hpayload he =>
    have hinside := Reading.steps_string hpayload he none .initial
    simp only [skippedIntroducers, List.mem_cons, List.not_mem_nil, or_false] at hi
    rcases hi with rfl | rfl | rfl | rfl | rfl | rfl | rfl | rfl <;>
      exact ⟨hinside.1, hinside.2⟩

/-- However many of them follow each other, they do nothing to the character sets. -/
theorem inert_flatten {fillers : List (List Char)} (h : ∀ s ∈ fillers, IsFiller s) :
    Inert fillers.flatten := by
  induction fillers with
  | nil => exact ⟨rfl, rfl⟩
  | cons s fillers ih =>
    rw [List.forall_mem_cons] at h
    exact h.1.inert.append (ih h.2)

/-! ### What a single shift does -/

namespace Reading

/-- An escape sequence that opens nothing takes its step, wherever it stands. -/
theorem steps_escape (front : List Char) {c : Char} (hc : c ∈ ['N', 'O', '\\']) (s : List Char) :
    ground.steps (front ++ [esc, c] ++ s) =
      ground.steps front ++ ((EscapeSequence.initial.step? c).toList ++ ground.steps s) := by
  rw [List.append_assoc, steps_append, List.cons_append, List.cons_append, List.nil_append,
    steps_esc, (steps_of_ground ((ground.after front).framing_after_esc hc) s).1]

/-- Where nothing is being read, or what is being read is ended by ESC and a backslash, the rest of
the stream is left to itself. -/
theorem steps_stop {front stop : List Char}
    (hstop : stop = [esc, '\\'] ∨ stop = [] ∧ (ground.after front).framing = .ground)
    (s : List Char) : ground.steps (front ++ stop ++ s) = ground.steps front ++ ground.steps s := by
  rcases hstop with rfl | ⟨rfl, hframing⟩
  · exact steps_escape front (by decide) s
  · rw [List.append_nil, steps_append, (steps_of_ground hframing s).1]

/-- SO and SI are executed wherever they do not stand in a string. -/
theorem step?_of_shift {r : Reading} (hopen : ∀ command?, r.framing ≠ .string command? false)
    {c : Char} (hc : c = so ∨ c = si) : r.step? c = shift? c := by
  obtain ⟨framing, escape⟩ := r
  rcases framing with _ | bare | _ | ⟨command?, _ | _⟩
  · rcases hc with rfl | rfl <;> rfl
  · rcases hc with rfl | rfl <;> rfl
  · rfl
  · exact absurd rfl (hopen command?)
  · rcases hc with rfl | rfl <;> rfl

/-- A character is shown where nothing is being read, unless it is a control character. -/
theorem shownAll_step (r : Reading) (c : Char) (g : GraphicSet) :
    shownAll (r.steps [c]) g =
      if r.framing = .ground ∧ isControl c = false then [g.current.translate c] else [] := by
  rw [steps, steps, List.append_nil]
  by_cases hground : r.framing = .ground
  · by_cases hc : isControl c = false
    · have hstep : r.step? c = some (.print c) := by
        simp only [step?, hground, Opening.ofChar_of_not_isControl hc, if_true]
      rw [hstep, if_pos ⟨hground, hc⟩]
      rfl
    · have hstep : r.step? c = shift? c := by
        simp only [step?, hground, if_neg (mt Opening.isControl_of_ofChar hc)]
      rw [hstep, if_neg fun h => hc h.2]
      exact GraphicStep.shownAll_of_ne_print (GraphicStep.shift?_ne_print c) g
  · rw [if_neg fun h => hground h.1]
    exact GraphicStep.shownAll_of_ne_print (step?_ne_print hground c) g

end Reading

namespace Terminal

open GraphicChange (charsetInUse designatedLast)

section OnScreen

variable {σ κ : Type} [Screen σ] [Clipboard κ] (screen : σ) (clipboard : κ) (settings : Settings)

/-- What a new terminal shows of a stream, and the character sets it is left with. -/
theorem textShown_onScreen (pieces : List (List Char)) :
    let start := onScreen screen clipboard settings
    start.textShown pieces = shownAll (Reading.ground.steps pieces.flatten) .initial ∧
      (start.writeAll pieces).host.graphicSet =
        onAll (Reading.ground.steps pieces.flatten) .initial :=
  (Reachable.onScreen screen clipboard settings).atRest.textShown_eq rfl pieces

/-- A character is printed if nothing is in progress before it, and then it is sent through the
character set in use. -/
theorem textShown_concat {fronts pieces : List (List Char)} {c : Char}
    (hpieces : pieces.flatten = fronts.flatten ++ [c]) :
    let start := onScreen screen clipboard settings
    start.textShown pieces = start.textShown fronts ++
      if (start.writeAll fronts).state = .ready ∧ isControl c = false then
        [(charsetInUse (graphicChangesOf fronts.flatten)).translate c] else [] := by
  intro start
  obtain ⟨hshown, -⟩ := textShown_onScreen screen clipboard settings pieces
  obtain ⟨hfront, -⟩ := textShown_onScreen screen clipboard settings fronts
  have hstate := (Reachable.onScreen screen clipboard settings).atRest.state_eq_ready_iff rfl fronts
  rw [hshown, hfront, hpieces, Reading.steps_append, GraphicStep.shownAll_append,
    GraphicStep.onAll_history, Reading.shownAll_step, ← graphicChangesOf,
    GraphicSet.current_onAll_initial]
  exact congrArg (_ ++ ·) (if_congr (and_congr_left' hstate.symm) rfl rfl)

section SingleShift

/- A single shift in a stream, and the same stream with something else in its place that ends what
is being read, or with nothing at all if nothing is. What comes between the shift and `c` does
nothing to the character sets. -/
variable {fronts pieces others : List (List Char)} {c final : Char} {slot : UInt8}
  {stop between rest : List Char} (hfinal : final = 'N' ∧ slot = 2 ∨ final = 'O' ∧ slot = 3)
  (hstop : stop = [esc, '\\'] ∨
    stop = [] ∧ ((onScreen screen clipboard settings).writeAll fronts).state = .ready)
  (hbetween : Reading.ground.steps between = [])
  (hpieces : pieces.flatten = fronts.flatten ++ [esc, final] ++ (between ++ c :: rest))
  (hothers : others.flatten = fronts.flatten ++ stop ++ (between ++ c :: rest))
include hfinal hstop hbetween hpieces hothers

/-- If `c` takes a step after which the shift is not pending any more, the shift only matters to
what this step shows. -/
theorem textShown_single {step : GraphicStep}
    (hstep : (Reading.ground.after between).step? c = some step)
    (hsame : ∀ g : GraphicSet, step.on (g.single slot) = step.on g) :
    let start := onScreen screen clipboard settings
    let g := (start.writeAll fronts).host.graphicSet
    (∃ tail,
      start.textShown pieces = start.textShown fronts ++ (step.shown (g.single slot) ++ tail) ∧
      start.textShown others = start.textShown fronts ++ (step.shown g ++ tail)) ∧
    (start.writeAll pieces).host.graphicSet = (start.writeAll others).host.graphicSet := by
  intro start g
  have hready := (Reachable.onScreen screen clipboard settings).atRest.state_eq_ready_iff rfl fronts
  rw [hready] at hstop
  obtain ⟨hfront, hset⟩ := textShown_onScreen screen clipboard settings fronts
  obtain ⟨hshown, hset₁⟩ := textShown_onScreen screen clipboard settings pieces
  obtain ⟨hshown', hset₂⟩ := textShown_onScreen screen clipboard settings others
  have hshift : final ∈ ['N', 'O', '\\'] ∧
      EscapeSequence.initial.step? final = some (.apply (.single slot)) := by
    rcases hfinal with ⟨rfl, rfl⟩ | ⟨rfl, rfl⟩ <;> exact ⟨by decide, rfl⟩
  obtain ⟨more, hnext⟩ : ∃ more, Reading.ground.steps (between ++ c :: rest) = step :: more := by
    refine ⟨((Reading.ground.after between).next c).steps rest, ?_⟩
    rw [Reading.steps_append, hbetween, Reading.steps, hstep]
    rfl
  rw [hpieces, Reading.steps_escape _ hshift.1, hshift.2, hnext] at hshown hset₁
  rw [hothers, Reading.steps_stop hstop, hnext] at hshown' hset₂
  refine ⟨⟨shownAll more (step.on g), ?_, ?_⟩, ?_⟩
  · rw [hshown, hfront, GraphicStep.shownAll_append, ← hset, ← hsame g]
    rfl
  · rw [hshown', hfront, GraphicStep.shownAll_append, ← hset]
    rfl
  · rw [hset₁, hset₂]
    simp only [GraphicStep.onAll_append, ← hset]
    exact congrArg (onAll more) (hsame g)

/-- A single shift affects the next printed character, and only that one. -/
theorem textShown_single_print
    (hground : (Reading.ground.after between).framing = .ground) (hc : isControl c = false) :
    let start := onScreen screen clipboard settings
    let changes := graphicChangesOf fronts.flatten
    (∃ tail,
      start.textShown pieces = start.textShown fronts ++
        (designatedLast slot changes).translate c :: tail ∧
      start.textShown others = start.textShown fronts ++
        (charsetInUse changes).translate c :: tail) ∧
    (start.writeAll pieces).host.graphicSet = (start.writeAll others).host.graphicSet := by
  intro start changes
  have hasked : slot < 4 ∧ (slot = 2 ∨ slot = 3) := by
    rcases hfinal with ⟨-, rfl⟩ | ⟨-, rfl⟩ <;> decide
  have hset : (start.writeAll fronts).host.graphicSet = GraphicChange.onAll changes .initial :=
    (textShown_onScreen screen clipboard settings fronts).2.trans (GraphicStep.onAll_history _)
  have hsingle : ∀ g : GraphicSet, g.single slot = { g with singleShift := some slot } :=
    fun g => if_pos hasked.2
  have hstep : (Reading.ground.after between).step? c = some (.print c) := by
    simp only [Reading.step?, hground, Opening.ofChar_of_not_isControl hc, if_true]
  obtain ⟨⟨tail, hshown, hshown'⟩, hsets⟩ := textShown_single screen clipboard settings hfinal hstop
    hbetween hpieces hothers hstep fun g => by rw [hsingle]; rfl
  refine ⟨⟨tail, ?_, ?_⟩, hsets⟩
  · rw [← GraphicSet.slot_onAll_initial changes hasked.1, ← hset]
    refine hshown.trans ?_
    rw [hsingle]
    rfl
  · rw [← GraphicSet.current_onAll_initial, ← hset]
    exact hshown'

/-- A single shift that is followed by a locking shift has no effect. The locking shift may stand in
a sequence, but not in a string. -/
theorem textShown_single_shift
    (hopen : ∀ command?, (Reading.ground.after between).framing ≠ .string command? false)
    (hc : c = so ∨ c = si) :
    let start := onScreen screen clipboard settings
    start.textShown pieces = start.textShown others ∧
      (start.writeAll pieces).host.graphicSet = (start.writeAll others).host.graphicSet := by
  intro start
  have hsingle : ∀ g : GraphicSet, g.single slot = { g with singleShift := some slot } :=
    fun g => if_pos (hfinal.imp And.right And.right)
  obtain ⟨step, hstep, hquiet, hsame⟩ : ∃ step : GraphicStep,
      (Reading.ground.after between).step? c = some step ∧ (∀ g, step.shown g = []) ∧
        ∀ g : GraphicSet, step.on (g.single slot) = step.on g := by
    rw [Reading.step?_of_shift hopen hc]
    rcases hc with rfl | rfl
    · exact ⟨.apply .shiftOut, rfl, fun _ => rfl, fun g => by rw [hsingle]; rfl⟩
    · exact ⟨.apply .shiftIn, rfl, fun _ => rfl, fun g => by rw [hsingle]; rfl⟩
  obtain ⟨⟨tail, hshown, hshown'⟩, hsets⟩ := textShown_single screen clipboard settings hfinal hstop
    hbetween hpieces hothers hstep hsame
  rw [hquiet] at hshown hshown'
  exact ⟨hshown.trans hshown'.symm, hsets⟩

end SingleShift

end OnScreen

/-- The character set that a character is sent through is the one that was designated last into the
slot in use: that of the last single shift, unless a character or a locking shift came after it, and
otherwise G1 after SO and G0 if not. Designations and shifts out of range change nothing. So it is
for every printed character of a stream. A single shift in a stream affects the next printed
character alone, whatever inert text comes between them, and none at all if SO or SI comes first.
NUL, control sequences without shifts, commands and skipped strings are inert. -/
theorem charset_selection :
    (∀ changes : List GraphicChange, let g := GraphicChange.onAll changes .initial
      ∀ c, g.translate c =
        ((charsetInUse changes).translate c, GraphicChange.onAll (changes ++ [.used]) .initial)) ∧
    (∀ (front back : List GraphicChange) (slot : UInt8),
      (4 ≤ slot → ∀ charset,
        GraphicChange.onAll (front ++ .designate slot charset :: back) .initial =
          GraphicChange.onAll (front ++ back) .initial) ∧
      (¬ (slot = 2 ∨ slot = 3) →
        GraphicChange.onAll (front ++ .single slot :: back) .initial =
          GraphicChange.onAll (front ++ back) .initial)) ∧
    (∀ {fillers : List (List Char)}, (∀ s ∈ fillers, IsFiller s) → Inert fillers.flatten) ∧
    ∀ {σ κ : Type} [Screen σ] [Clipboard κ] (screen : σ) (clipboard : κ) (settings : Settings)
      (fronts : List (List Char)),
      let start := onScreen screen clipboard settings
      let changes := graphicChangesOf fronts.flatten
      (∀ {c : Char} {pieces : List (List Char)}, pieces.flatten = fronts.flatten ++ [c] →
        start.textShown pieces = start.textShown fronts ++
          if (start.writeAll fronts).state = .ready ∧ isControl c = false then
            [(charsetInUse changes).translate c] else []) ∧
      ∀ {final : Char} {slot : UInt8}, final = 'N' ∧ slot = 2 ∨ final = 'O' ∧ slot = 3 →
        ∀ {stop : List Char},
          stop = [esc, '\\'] ∨ stop = [] ∧ (start.writeAll fronts).state = .ready →
        ∀ {between : List Char}, Reading.ground.steps between = [] →
        ∀ {c : Char} {rest : List Char} {pieces others : List (List Char)},
          pieces.flatten = fronts.flatten ++ [esc, final] ++ (between ++ c :: rest) →
          others.flatten = fronts.flatten ++ stop ++ (between ++ c :: rest) →
            ((Reading.ground.after between).framing = .ground → isControl c = false →
              (∃ tail,
                start.textShown pieces = start.textShown fronts ++
                  (designatedLast slot changes).translate c :: tail ∧
                start.textShown others = start.textShown fronts ++
                  (charsetInUse changes).translate c :: tail) ∧
              (start.writeAll pieces).host.graphicSet = (start.writeAll others).host.graphicSet) ∧
            ((∀ command?, (Reading.ground.after between).framing ≠ .string command? false) →
              c = so ∨ c = si →
              start.textShown pieces = start.textShown others ∧
              (start.writeAll pieces).host.graphicSet =
                (start.writeAll others).host.graphicSet) := by
  refine ⟨?_, ?_, inert_flatten, ?_⟩
  · intro changes g c
    rw [GraphicSet.translate, GraphicSet.current_onAll_initial, GraphicChange.onAll_concat]
    rfl
  · intro front back slot
    exact ⟨fun hslot charset => GraphicChange.onAll_designate_of_le hslot charset front back _,
      fun hslot => GraphicChange.onAll_single_of_ne hslot front back _⟩
  · intro σ κ _ _ screen clipboard settings fronts start changes
    refine ⟨textShown_concat screen clipboard settings, ?_⟩
    intro final slot hfinal stop hstop between hbetween c rest pieces others hpieces hothers
    exact ⟨textShown_single_print screen clipboard settings hfinal hstop hbetween hpieces hothers,
      textShown_single_shift screen clipboard settings hfinal hstop hbetween hpieces hothers⟩

/-- A NUL, a control sequence, a command and a skipped string stand between a single shift and the
character it is for, in pieces that cut the shift and two of them. With SO after it, the shift is
for no character. A designation and a shift ask for slots that there are not. -/
theorem charset_selection_single :
    let start := onScreen (Page.empty 80) MemoryClipboard.empty .standard
    let fillers := [[nul], "\x1b[1;31m".toList, "\x1b]0;N\x07".toList, "\x1bP\x0eN\x1b\\".toList]
    let shifted := ["a\x1b*0\x1b".toList, "N\x00\x1b[1;".toList,
      "31m\x1b]0;N\x07\x1bP\x0eN".toList, "\x1b\\qq".toList]
    let unshifted := ["a\x1b*0\x00\x1b[1;31m\x1b]0;N\x07\x1bP\x0eN\x1b\\qq".toList]
    (∀ s ∈ fillers, IsFiller s) ∧
      (∃ tail, start.textShown shifted = 'a' :: '─' :: tail ∧
        start.textShown unshifted = 'a' :: 'q' :: tail) ∧
      start.textShown ["a\x1b*0\x1bN\x00".toList, "\x0eq".toList] =
        start.textShown ["a\x1b*0\x00\x0eq".toList] ∧
      GraphicChange.onAll [.designate 2 .uk, .designate 4 .ascii, .single 2, .single 1] .initial =
        GraphicChange.onAll [.designate 2 .uk, .single 2] .initial := by
  intro start fillers shifted unshifted
  obtain ⟨-, hrange, hinert, hstream⟩ := charset_selection
  have hcontrol : IsFiller ([esc, '['] ++ ("1;31".toList ++ ['m'])) :=
    .control (by decide) (by decide) (by decide) rfl
  have hskipped : IsFiller ([esc, 'P'] ++ ([so, 'N'] ++ [esc, '\\'])) :=
    .skipped (by decide) (by decide) (by decide)
  have hfillers : ∀ s ∈ fillers, IsFiller s := by
    rw [List.forall_mem_cons, List.forall_mem_cons, List.forall_mem_cons, List.forall_mem_singleton]
    exact ⟨.nul, hcontrol,
      .command ⟨[esc, ']'], "0;N".toList, [bel], by decide, by decide, by decide⟩, hskipped⟩
  have hbetween : Inert fillers.flatten := hinert hfillers
  have hnul : Inert [nul] := IsFiller.nul.inert
  have hfront : start.textShown ["a\x1b*0".toList] = ['a'] :=
    (textShown_onScreen _ _ _ _).1.trans (by decide)
  have hready : (start.writeAll ["a\x1b*0".toList]).state = .ready :=
    ((Reachable.onScreen _ _ _).atRest.state_eq_ready_iff rfl _).mpr (by decide)
  obtain ⟨-, hsingle⟩ := hstream (Page.empty 80) MemoryClipboard.empty .standard ["a\x1b*0".toList]
  have hshifted : shifted.flatten =
      "a\x1b*0".toList ++ [esc, 'N'] ++ (fillers.flatten ++ ['q', 'q']) := rfl
  obtain ⟨⟨tail, hprinted, hprinted'⟩, -⟩ :=
    (hsingle (.inl ⟨rfl, rfl⟩) (.inr ⟨rfl, hready⟩) hbetween.steps_eq hshifted
      (List.flatten_singleton : unshifted.flatten = _)).1 hbetween.framing_eq rfl
  have hlocking : ["a\x1b*0\x1bN\x00".toList, "\x0eq".toList].flatten =
      "a\x1b*0".toList ++ [esc, 'N'] ++ ([nul] ++ [so, 'q']) := rfl
  have hlocked :=
    (hsingle (.inl ⟨rfl, rfl⟩) (.inr ⟨rfl, hready⟩) hnul.steps_eq hlocking
      (List.flatten_singleton : ["a\x1b*0\x00\x0eq".toList].flatten = _)).2
        (by simp [hnul.framing_eq]) (.inl rfl)
  rw [hfront] at hprinted hprinted'
  refine ⟨hfillers, ⟨tail, hprinted, hprinted'⟩, hlocked.1, ?_⟩
  exact ((hrange [.designate 2 .uk] [.single 2, .single 1] 4).1 (by decide) .ascii).trans
    ((hrange [.designate 2 .uk, .single 2] [] 1).2 (by decide))

end Terminal

end ControlStream
