import ControlStream.Proofs.ControlGrammar
import ControlStream.Proofs.Output

/-!
# What control sequences do

A control sequence without control characters in it does what it means, in whatever pieces it is
delivered, and nothing else. It takes effect at its final character. Everything that is noted is
noted then, too, and from it one learns on which parameters the final character has acted.

An intermediate after a digit completes the last parameter, and the final character completes one
more, which no digit or separator belongs to.

## Main definitions

* `ControlSequence.IsPlainBody`: what may stand in a sequence, without control characters.
* `ControlSequence.actedOn`: the parameters a final character acts on.
* `ControlSequence.endEvents`: what is noted at the end of a sequence.

## Main statements

* `ControlSequence.toHost_ofBody`: the final character does what the sequence means.
* `Terminal.Reachable.control_meaning`: so does the whole sequence, and it ends there.
* `Terminal.Reachable.control_params`: the parameters that are acted on, and what is noted.
-/

namespace ControlStream

open ControlChar

namespace ControlSequence

/-! ### The effect of a sequence -/

/-- There is no control character of the C0 set among the characters, no DEL, and none that ends a
control sequence. -/
def IsPlainBody (p : List Char) : Prop :=
  ∀ c ∈ p, 0x20 ≤ c.toNat ∧ c ≠ del ∧ isControlFinal c = false

instance (p : List Char) : Decidable (IsPlainBody p) :=
  List.decidableBAll (fun c : Char => 0x20 ≤ c.toNat ∧ c ≠ del ∧ isControlFinal c = false) p

namespace IsPlainBody

variable {p : List Char} (h : IsPlainBody p)
include h

theorem isBody : IsBody p := by
  intro c hc
  obtain ⟨hlow, -, hfinal⟩ := h c hc
  refine ⟨?_, ?_, ?_, hfinal⟩ <;> rintro rfl <;> exact absurd hlow (by decide)

theorem filter_isExecutable : p.filter isExecutable = [] := by
  rw [List.filter_eq_nil_iff]
  intro c hc
  obtain ⟨hlow, -, -⟩ := h c hc
  simp only [isExecutable, Bool.and_eq_true, inRange_iff]
  omega

theorem of_prefix {front : List Char} (hfront : front <+: p) : IsPlainBody front :=
  fun c hc => h c (hfront.subset hc)

end IsPlainBody

/-- Nothing is meant by a body that is not a marker, if there is one, and then digits and
separators. -/
theorem meaningOf_eq_nothing {p : List Char}
    (h : ∀ (marker : Option Char) (q : List Char), p = marker.toList ++ q →
      (∀ c ∈ marker, isMarker c = true) → ¬ ∀ c ∈ q, isParam c = true) (final : Char) :
    meaningOf p final = .nothing := by
  have hmodes : ¬ p.all isParam = true := fun hp => h none p rfl nofun (List.all_eq_true.mp hp)
  have hprivate : ¬ (p.head? = some '?' ∧ p.tail.all isParam = true) := by
    rintro ⟨hhead, htail⟩
    obtain ⟨q, rfl⟩ := List.head?_eq_some_iff.mp hhead
    have hmarker : ∀ c ∈ some '?', isMarker c = true := by
      rintro _ ⟨⟩
      rfl
    exact h (some '?') q rfl hmarker (List.all_eq_true.mp htail)
  rw [meaningOf, if_neg hmodes, if_neg hprivate, ite_self]

/-- What is meant by a marker, if there is one, and then digits and separators. -/
theorem meaningOf_spelled {marker : Option Char} (hmarker : ∀ c ∈ marker, isMarker c = true)
    {p : List Char} (hp : ∀ c ∈ p, isParam c = true) {final : Char}
    (hfinal : final = 'h' ∨ final = 'l') :
    meaningOf (marker.toList ++ p) final =
      if marker = none then .modes (paramsOf p)
      else if marker = some '?' then .privateModes (paramsOf p) else .nothing := by
  have hall : p.all isParam = true := List.all_eq_true.mpr hp
  rw [meaningOf, if_pos hfinal]
  cases marker with
  | none => exact if_pos hall
  | some c =>
    have hc : isParam c = false := by
      rw [← Bool.not_eq_true]
      intro hparam
      have hlow := bounds_of_isParam hparam
      have hhigh := le_toNat_of_isMarker (hmarker c rfl)
      omega
    have hfront : (c :: p).all isParam = false := by simp [hc]
    simp only [Option.toList_some, List.cons_append, List.nil_append, hfront, List.head?_cons,
      List.tail_cons, hall, Option.some.injEq, reduceCtorEq, and_true, if_false,
      Bool.false_eq_true]

section Effect

variable {σ κ : Type} [Screen σ]

theorem toHost_foldl_setMode (enabled : Bool) (params : List Nat) (ctx : Context σ κ) :
    (params.foldl (setMode enabled) ctx).toHost = (Meaning.modes params).on enabled ctx.toHost := by
  induction params generalizing ctx with
  | nil => rfl
  | cons mode params ih =>
    rw [List.foldl_cons, ih]
    by_cases hmode : mode = 4
    · subst hmode
      simp [setMode, Meaning.on, Meaning.onStore, Meaning.calls, Context.setKey, Context.log,
        Context.setScreenInsert, List.replicate_succ, replay, Call.on]
    · have hne : ¬ 4 = mode := fun h => hmode h.symm
      simp [setMode, Meaning.on, Meaning.onStore, Meaning.calls, Context.log, hmode, hne]

theorem toHost_foldl_setPrivateMode (enabled : Bool) (params : List Nat) (ctx : Context σ κ) :
    (params.foldl (setPrivateMode enabled) ctx).toHost =
      (Meaning.privateModes params).on enabled ctx.toHost := by
  induction params generalizing ctx with
  | nil => rfl
  | cons mode params ih =>
    rw [List.foldl_cons, ih]
    by_cases hmode : mode = 25
    · subst hmode
      simp [setPrivateMode, Meaning.on, Meaning.onStore, Meaning.calls, Context.setKey, Context.log]
    · have hne : ¬ 25 = mode := fun h => hmode h.symm
      simp [setPrivateMode, Meaning.on, Meaning.onStore, Meaning.calls, Context.log, hmode, hne]

/-- The final character of a sequence that has read a marker and parameters does what the sequence
means. -/
theorem HasRead.toHost_finish {s : ControlSequence} {marker : Option Char} {p : List Char}
    (h : s.HasRead marker p) (hmarker : ∀ c ∈ marker, isMarker c = true) (final : Char)
    (ctx : Context σ κ) :
    (s.finish final ctx).toHost =
      (meaningOf (marker.toList ++ p) final).on (final == 'h') ctx.toHost := by
  rw [finish, h.finalParams_eq, h.intermediates, h.marker]
  by_cases hset : final = 'h' ∨ final = 'l'
  · rw [meaningOf_spelled hmarker h.onlyParams hset]
    simp only [hset, true_and]
    split_ifs
    · exact toHost_foldl_setMode _ _ _
    · exact toHost_foldl_setPrivateMode _ _ _
    · rfl
  · simp only [meaningOf, hset, false_and, if_false]
    rfl

/-- The final character does what the sequence means. -/
theorem toHost_ofBody {p : List Char} (hp : IsPlainBody p)
    (hcount : p.countP isSeparator ≤ maxParams) (final : Char) (ctx : Context σ κ) :
    (if (ofBody p).phase = .ignore then ctx.log (.malformedCsi final)
      else (ofBody p).finish final ctx).toHost =
        (meaningOf p final).on (final == 'h') ctx.toHost := by
  have hlow : ∀ c ∈ p, 0x20 ≤ c.toNat ∧ c ≠ del := fun c hc => ⟨(hp c hc).1, (hp c hc).2.1⟩
  by_cases hspelled : ∃ (marker : Option Char) (q : List Char), p = marker.toList ++ q ∧
      (∀ c ∈ marker, isMarker c = true) ∧ ∀ c ∈ q, isParam c = true
  · obtain ⟨marker, q, rfl, hmarker, hq⟩ := hspelled
    rw [List.countP_append] at hcount
    have hread := hasRead_ofBody hmarker hq (by omega)
    rw [if_neg (phase_ne_ignore_of_inParams hread.inParams)]
    exact hread.toHost_finish hmarker final ctx
  · have hnothing : meaningOf p final = .nothing :=
      meaningOf_eq_nothing (fun marker q h hmarker hq => hspelled ⟨marker, q, h, hmarker, hq⟩) final
    rw [hnothing]
    split
    · rfl
    · rename_i hopen
      have hne : (ofBody p).intermediates ≠ [] := fun hnone =>
        hspelled (exists_of_open hlow hopen hnone)
      simp only [finish, hne, false_and, and_false, if_false]
      rfl

end Effect

/-! ### What a sequence notes -/

section Events

variable {σ κ : Type} [Screen σ]

/-- The parameters on which a final character acts: those that are spelled, and another one, which
is 0, if an intermediate has completed the last of them. -/
def actedOn (p ints : List Char) : List Nat :=
  paramsOf p ++ if ints ≠ [] ∧ p.getLast?.any isDecimal then [0] else []

def endEvents (marker : Option Char) (params : List Nat) (ints : List Char) (final : Char) :
    List Event :=
  if (final = 'h' ∨ final = 'l') ∧ ints = [] ∧ marker = none then
    params.map fun mode => if mode = 4 then .insertMode (final == 'h') else .ignoredMode mode
  else if (final = 'h' ∨ final = 'l') ∧ ints = [] ∧ marker = some '?' then
    params.map fun mode =>
      if mode = 25 then .cursorVisible (final == 'h') else .ignoredPrivateMode mode
  else [.ignoredCsi marker params (String.ofList ints) final]

omit [Screen σ] in
/-- If single parameters note an event each, then several do, one after the other. -/
theorem events_foldl {f : Context σ κ → Nat → Context σ κ} {event : Nat → Event}
    (hf : ∀ ctx mode, (f ctx mode).events = ctx.events.push (event mode)) (params : List Nat)
    (ctx : Context σ κ) :
    (params.foldl f ctx).events.toList = ctx.events.toList ++ params.map event := by
  induction params generalizing ctx with
  | nil => exact (List.append_nil _).symm
  | cons mode params ih => simp [ih, hf]

theorem events_finish (s : ControlSequence) (final : Char) (ctx : Context σ κ) :
    (s.finish final ctx).events.toList =
      ctx.events.toList ++ endEvents s.marker s.finalParams s.intermediates final := by
  unfold finish endEvents
  split_ifs
  · apply events_foldl
    intro ctx mode
    unfold setMode
    split <;> rfl
  · apply events_foldl
    intro ctx mode
    unfold setPrivateMode
    split <;> rfl
  · exact Array.toList_push

/-- A marker, digits and separators, and intermediates may stand in a control sequence. -/
theorem isPlainBody_spelled {marker : Option Char} (hmarker : ∀ c ∈ marker, isMarker c = true)
    {p : List Char} (hp : ∀ c ∈ p, isParam c = true) {ints : List Char}
    (hints : ∀ c ∈ ints, isIntermediate c = true) :
    IsPlainBody (marker.toList ++ p ++ ints) ∧
      (marker.toList ++ p ++ ints).countP isSeparator = p.countP isSeparator := by
  constructor
  · intro c hc
    have hrange : 0x20 ≤ c.toNat ∧ c.toNat < 0x40 := by
      rw [List.mem_append, List.mem_append, Option.mem_toList] at hc
      rcases hc with (hc | hc) | hc
      · exact range_of_isMarker (hmarker c hc)
      · have := bounds_of_isParam (hp c hc)
        omega
      · have hint := hints c hc
        rw [isIntermediate, inRange_iff] at hint
        omega
    have hfinal : isControlFinal c = false := by
      rw [← Bool.not_eq_true, isControlFinal, inRange_iff]
      omega
    exact ⟨hrange.1, by rintro rfl; exact absurd hrange.2 (by decide), hfinal⟩
  · have hnone : ints.countP isSeparator = 0 := by
      rw [List.countP_eq_zero]
      intro c hc
      simp [not_separator_of_isIntermediate (hints c hc)]
    rw [List.countP_append, List.countP_append, countP_marker hmarker, hnone]
    omega

/-- What is made of a marker, if there is one, digits and separators, and intermediates, if there
are any. -/
theorem ofBody_spelled {marker : Option Char} (hmarker : ∀ c ∈ marker, isMarker c = true)
    {p : List Char} (hp : ∀ c ∈ p, isParam c = true) (hcount : p.countP isSeparator ≤ maxParams)
    {ints : List Char} (hints : ∀ c ∈ ints, isIntermediate c = true)
    (hlength : ints.length ≤ maxIntermediates) :
    let s := ofBody (marker.toList ++ p ++ ints)
    s.phase ≠ .ignore ∧ s.marker = marker ∧ s.intermediates = ints ∧
      s.finalParams = actedOn p ints := by
  have hread := hasRead_ofBody hmarker hp hcount
  by_cases hnone : ints = []
  · subst hnone
    rw [List.append_nil, actedOn]
    simp only [ne_eq, not_true_eq_false, false_and, if_false, List.append_nil]
    exact ⟨phase_ne_ignore_of_inParams hread.inParams, hread.marker, hread.intermediates,
      hread.finalParams_eq⟩
  · have hall := hasReadAll_ofBody hread hnone hints hlength
    have hopen : (ofBody (marker.toList ++ p ++ ints)).phase ≠ .ignore := by
      rw [hall.phase]
      decide
    refine ⟨hopen, hall.marker, hall.intermediates, ?_⟩
    rw [hall.finalParams, actedOn]
    simp only [ne_eq, hnone, not_false_eq_true, true_and]

end Events

end ControlSequence

/-! ### Whole sequences -/

namespace Progress

variable {σ κ : Type} [Screen σ] [Clipboard κ] {x : Progress σ κ}

section Idle

variable (hidle : x.interpreter.Idle) {i p : List Char} (hi : i ∈ controlIntroducers)
  (hp : ControlSequence.IsPlainBody p)
include hidle hi hp

/-- Without control characters in it, a body has no effect. -/
theorem leadsTo_plainBody : x.LeadsTo (i ++ p) (x.inControl (.ofBody p)) := by
  have hread := leadsTo_body hidle.textRun .initial hp.isBody
  have hnone : x.executed (p.filter isExecutable) = x := by
    rw [hp.filter_isExecutable]
    rfl
  rw [hnone] at hread
  exact (leadsTo_controlIntroducer hidle hi).append hread

/-- The whole sequence does what it means. -/
theorem leadsTo_meaning (hcount : p.countP ControlSequence.isSeparator ≤ ControlSequence.maxParams)
    {final : Char} (hfinal : isControlFinal final = true) :
    x.LeadsTo (i ++ p ++ [final]) ⟨x.interpreter,
      { (ControlSequence.meaningOf p final).on (final == 'h') x.context.toHost with
        events := x.context.events }⟩ := by
  have hended := leadsTo_final hidle (.ofBody p) hfinal
  have hmeaning := ControlSequence.toHost_ofBody hp hcount final x.context
  exact ((leadsTo_plainBody hidle hi hp).append hended).trans_same ⟨rfl, hmeaning⟩

end Idle

/-- A character that is added has no effect, and nothing is noted. -/
theorem tick_inControl_of_accepted (x : Progress σ κ) (s : ControlSequence) {c : Char}
    (hlow : 0x20 ≤ c.toNat) (hdel : c ≠ del) (hfinal : isControlFinal c = false)
    (hroom : s.overruns c = false) : (x.inControl s).tick c = x.inControl (s.accept c) := by
  have hne : ∀ d : Char, d.toNat < 0x20 → c ≠ d := by
    rintro d hd rfl
    omega
  have hexecutable : isExecutable c = false := by
    rw [← Bool.not_eq_true]
    simp only [isExecutable, Bool.and_eq_true, inRange_iff]
    omega
  rw [tick_inControl, ControlSequence.process]
  simp only [hne esc (by decide), hne can (by decide), hne sub (by decide), hne nul (by decide),
    hdel, hexecutable, hfinal, hroom, or_self, if_false, Bool.false_eq_true]
  rfl

/-- As long as there are not too many separators, nothing is noted before the final character. -/
theorem after_plainBody (x : Progress σ κ) {p : List Char} (hp : ControlSequence.IsPlainBody p)
    (hcount : p.countP ControlSequence.isSeparator ≤ ControlSequence.maxParams) :
    (x.inControl .initial).after p = x.inControl (.ofBody p) := by
  induction p using List.reverseRecOn with
  | nil => rfl
  | append_singleton p c ih =>
    rw [List.countP_append] at hcount
    have hread := ih (hp.of_prefix (List.prefix_append p [c])) (by omega)
    have hroom : (ControlSequence.ofBody p).overruns c = false := by
      rw [← Bool.not_eq_true, ControlSequence.overruns, Bool.and_eq_true, Bool.and_eq_true,
        decide_eq_true_iff]
      rintro ⟨⟨hin, hseparator⟩, hfull⟩
      have hlength := (ControlSequence.counts_ofBody p).params hin
      rw [List.countP_singleton, if_pos hseparator] at hcount
      omega
    obtain ⟨hlow, hdel, hfinal⟩ := hp c (by simp)
    rw [after_append, hread, ControlSequence.ofBody_append_singleton,
      ControlSequence.absorb_eq_accept hlow hdel]
    exact tick_inControl_of_accepted x _ hlow hdel hfinal hroom

/-- Nothing is noted at the introducer. -/
theorem after_controlIntroducer (hidle : x.interpreter.Idle) {i : List Char}
    (hi : i ∈ controlIntroducers) : x.after i = x.inControl .initial := by
  rw [← inControl_initial hidle]
  simp only [controlIntroducers, List.mem_cons, List.not_mem_nil, or_false] at hi
  rcases hi with rfl | rfl
  · rw [after_cons, tick_of_ready hidle.textDone hidle.ready]
    change x.tickEscape '[' = _
    simp only [tickEscape, withState, hidle.clear.escape]
    rfl
  · rw [after_cons, tick_of_ready hidle.textDone hidle.ready]
    rfl

/-- What is noted in all of a control sequence is noted at its final character. -/
theorem after_control (hidle : x.interpreter.Idle) {i p : List Char} (hi : i ∈ controlIntroducers)
    (hp : ControlSequence.IsPlainBody p)
    (hcount : p.countP ControlSequence.isSeparator ≤ ControlSequence.maxParams)
    {final : Char} (hfinal : isControlFinal final = true) :
    x.after (i ++ p ++ [final]) = ⟨x.interpreter,
      if (ControlSequence.ofBody p).phase = .ignore then x.context.log (.malformedCsi final)
      else (ControlSequence.ofBody p).finish final x.context⟩ := by
  rw [after_append, after_append, after_controlIntroducer hidle hi, after_plainBody x hp hcount]
  change (x.inControl _).tick final = _
  rw [tick_inControl, ControlSequence.process_of_final hfinal, ← hidle.clear.control,
    ← hidle.ready]

end Progress

namespace Terminal

variable {σ κ : Type} [Screen σ] [Clipboard κ] {t : Terminal σ κ}

section Meaning

variable (h : t.AtRest) (hready : t.state = .ready) {i p : List Char}
  (hi : i ∈ controlIntroducers) (hp : ControlSequence.IsPlainBody p) {pieces : List (List Char)}
include h hready hi hp

/-- In the middle of a sequence nothing has happened yet. -/
theorem AtRest.writeAll_plainBody (hpieces : pieces.flatten = i ++ p) :
    t.writeAll pieces =
      { t with interpreter := { t.interpreter with state := .control, control := .ofBody p } } :=
  h.writeAll_of_leadsTo (hpieces ▸ Progress.leadsTo_plainBody (h.idle hready) hi hp)

variable (hcount : p.countP ControlSequence.isSeparator ≤ ControlSequence.maxParams) {final : Char}
  (hfinal : isControlFinal final = true) (hpieces : pieces.flatten = i ++ p ++ [final])
include hcount hfinal hpieces

theorem AtRest.writeAll_meaning :
    t.writeAll pieces =
      { t with host := (ControlSequence.meaningOf p final).on (final == 'h') t.host } :=
  h.writeAll_of_leadsTo (hpieces ▸ Progress.leadsTo_meaning (h.idle hready) hi hp hcount hfinal)

omit [Screen σ] in
theorem AtRest.calls_meaning :
    t.calls pieces = (ControlSequence.meaningOf p final).calls (final == 'h') := by
  have hwrite := h.onTranscript.writeAll_meaning hready hi hp hcount hfinal hpieces
  have hcalls := congrArg (·.screen.calls.toList) hwrite
  exact hcalls.trans (Transcript.toList_replay _ _)

end Meaning

/-- A control sequence does what its body and its final character mean, in whatever pieces it is
delivered. It takes effect at the final character and ends there, with nothing in progress. -/
theorem Reachable.control_meaning (h : t.Reachable) (hready : t.state = .ready) {i p : List Char}
    (hi : i ∈ controlIntroducers) (hp : ControlSequence.IsPlainBody p)
    (hcount : p.countP ControlSequence.isSeparator < ControlSequence.maxParams) {final : Char}
    (hfinal : isControlFinal final = true) :
    (∀ {front : List Char} {pieces : List (List Char)}, front <+: p →
      pieces.flatten = i ++ front →
        (t.writeAll pieces).state = .control ∧ (t.writeAll pieces).host = t.host) ∧
    ∀ {pieces : List (List Char)}, pieces.flatten = i ++ p ++ [final] →
      let meaning := ControlSequence.meaningOf p final
      let enabled := final == 'h'
      t.writeAll pieces = { t with host := meaning.on enabled t.host } ∧
        (t.writeAll pieces).interpreter.Idle ∧
        t.calls pieces = meaning.calls enabled ∧
        ∀ page : Page, replay (t.calls pieces) page = meaning.onPage enabled page := by
  constructor
  · intro front pieces hfront hpieces
    rw [h.atRest.writeAll_plainBody hready hi (hp.of_prefix hfront) hpieces]
    exact ⟨rfl, rfl⟩
  · intro pieces hpieces meaning enabled
    have hwrite := h.atRest.writeAll_meaning hready hi hp (Nat.le_of_lt hcount) hfinal hpieces
    have hcalls := h.atRest.calls_meaning hready hi hp (Nat.le_of_lt hcount) hfinal hpieces
    refine ⟨hwrite, ?_, hcalls, ?_⟩
    · rw [hwrite]
      exact h.atRest.idle hready
    · intro page
      rw [hcalls]
      exact meaning.replay_calls enabled page

/-- A sequence in three pieces, with a mode that is not known before the insert mode, and one that
hides the cursor. -/
theorem control_meaning_insert :
    let t := onPage (.empty 80) .standard
    let pieces := ["\x1b[".toList, "20;".toList, "4h".toList]
    let others := ["\u009b?2".toList, "5l".toList]
    t.Reachable ∧ ControlSequence.IsPlainBody "20;4".toList ∧
      ControlSequence.meaningOf "20;4".toList 'h' = .modes [20, 4] ∧
      t.calls pieces = [.insert true] ∧
      (t.writeAll pieces).store.get? .insertMode = some true ∧
      (t.writeAll pieces).store.get? .cursorVisible = none ∧
      ControlSequence.meaningOf "?25".toList 'l' = .privateModes [25] ∧
      t.calls others = [] ∧
      (t.writeAll others).store.get? .insertMode = none ∧
      (t.writeAll others).store.get? .cursorVisible = some false := by
  intro t pieces others
  have hreachable : t.Reachable := .onScreen _ _ _
  have hplain : ControlSequence.IsPlainBody "20;4".toList := by decide
  have hhides : ControlSequence.IsPlainBody "?25".toList := by decide
  have hset : isControlFinal 'h' = true := rfl
  have hreset : isControlFinal 'l' = true := rfl
  have hspelled : ControlSequence.meaningOf "20;4".toList 'h' = .modes [20, 4] := by decide
  have hspelled' : ControlSequence.meaningOf "?25".toList 'l' = .privateModes [25] := by decide
  have hpieces : pieces.flatten = [esc, '['] ++ "20;4".toList ++ ['h'] := rfl
  have hothers : others.flatten = [csi] ++ "?25".toList ++ ['l'] := rfl
  obtain ⟨-, hmeaning⟩ := hreachable.control_meaning rfl (i := [esc, '['])
    (by decide) hplain (by decide) hset
  obtain ⟨-, hmeaning'⟩ := hreachable.control_meaning rfl (i := [csi])
    (by decide) hhides (by decide) hreset
  obtain ⟨hwrite, -, hcalls, -⟩ := hmeaning hpieces
  obtain ⟨hwrite', -, hcalls', -⟩ := hmeaning' hothers
  rw [hspelled] at hwrite hcalls
  rw [hspelled'] at hwrite' hcalls'
  rw [hcalls, hcalls', hwrite, hwrite']
  exact ⟨hreachable, hplain, hspelled, rfl, rfl, rfl, hspelled', rfl, rfl, rfl⟩

/-- A control sequence acts on the parameters it spells, unless intermediates come after a digit:
then it acts on another one, which is 0. This is noted when it ends. -/
theorem Reachable.control_params (h : t.Reachable) (hready : t.state = .ready) {i : List Char}
    (hi : i ∈ controlIntroducers) {marker : Option Char}
    (hmarker : ∀ c ∈ marker, ControlSequence.isMarker c = true) {p : List Char}
    (hp : ∀ c ∈ p, ControlSequence.isParam c = true)
    (hcount : p.countP ControlSequence.isSeparator < ControlSequence.maxParams) {ints : List Char}
    (hints : ∀ c ∈ ints, isIntermediate c = true)
    (hlength : ints.length ≤ ControlSequence.maxIntermediates) {final : Char}
    (hfinal : isControlFinal final = true) :
    let body := marker.toList ++ p ++ ints
    let params := ControlSequence.actedOn p ints
    (t.progress.after (i ++ body)).interpreter.control.finalParams = params ∧
      (t.deliver (i ++ body ++ [final])).2.toList =
        ControlSequence.endEvents marker params ints final := by
  intro body params
  have hidle := h.atRest.idle hready
  obtain ⟨hplain, hseparators⟩ := ControlSequence.isPlainBody_spelled hmarker hp hints
  obtain ⟨hopen, hmarkerRead, hintsRead, hparams⟩ :=
    ControlSequence.ofBody_spelled hmarker hp (Nat.le_of_lt hcount) hints hlength
  have hread : t.progress.after (i ++ body) = t.progress.inControl (.ofBody body) := by
    rw [Progress.after_append, Progress.after_controlIntroducer hidle hi,
      Progress.after_plainBody _ hplain (by omega)]
  refine ⟨by rw [hread]; exact hparams, ?_⟩
  rw [deliver_eq h.atRest, Progress.after_control hidle hi hplain (by omega) hfinal, if_neg hopen,
    Progress.settle_of_textDone hidle.textDone]
  refine (ControlSequence.events_finish _ final _).trans ?_
  rw [hmarkerRead, hintsRead, hparams]
  exact List.nil_append _

/-- An unknown private sequence whose last parameter is empty, with two intermediates. -/
theorem control_params_private :
    let t := onPage (.empty 80) .standard
    t.Reachable ∧ (t.deliver "\x9b?1;!$h".toList).2.toList =
      [.ignoredCsi (some '?') [1, 0] "!$" 'h'] := by
  intro t
  have hreachable : t.Reachable := .onScreen _ _ _
  have hi : [csi] ∈ controlIntroducers := by decide
  have hmarker : ∀ c ∈ some '?', ControlSequence.isMarker c = true := by
    rintro _ ⟨⟩
    rfl
  have hp : ∀ c ∈ "1;".toList, ControlSequence.isParam c = true := List.all_eq_true.mp rfl
  have hints : ∀ c ∈ "!$".toList, isIntermediate c = true := List.all_eq_true.mp rfl
  have hfinal : isControlFinal 'h' = true := rfl
  obtain ⟨-, hevents⟩ :=
    hreachable.control_params rfl hi hmarker hp (by decide) hints (by decide) hfinal
  exact ⟨hreachable, hevents⟩

/-- The last parameter, which has a digit, is completed by the intermediate and then once more by
the final character. -/
theorem control_params_completed_twice :
    let t := onPage (.empty 80) .standard
    t.Reachable ∧ t.state = .ready ∧ ControlSequence.paramsOf ['4'] = [4] ∧
      (t.deliver ([esc, '['] ++ ['4'] ++ [' '] ++ ['h'])).2.toList =
        [.ignoredCsi none [4, 0] " " 'h'] := by
  intro t
  have hreachable : t.Reachable := .onScreen _ _ _
  refine ⟨hreachable, rfl, by decide, ?_⟩
  rw [deliver_eq hreachable.atRest]
  rfl

end Terminal

end ControlStream
