import Mathlib.Data.List.Induction
import ControlStream.Proofs.ControlSequences

/-!
# The grammar of control sequences

Which modes a control sequence turns on or off is decided by what its body spells: digits and
separators make up parameters, and a question mark in front of them makes the modes private. Every
other body has no effect, whatever it consists of. The parameters are those of the fields between
the separators, of which there may be as many as the limit allows.

## Main definitions

* `ControlSequence.paramsOf`: the parameters that digits and separators spell.
* `ControlSequence.Meaning`, `ControlSequence.meaningOf`: what a body and a final character mean.
* `ControlSequence.HasRead`: a sequence that has read a marker and parameters.
* `ControlSequence.HasReadAll`: a sequence that has read intermediates after them.

## Main statements

* `ControlSequence.hasRead_ofBody`: what is made of a marker, digits and separators.
* `ControlSequence.hasReadAll_ofBody`: what is made of these and intermediates.
* `ControlSequence.exists_of_open`: nothing else is read without intermediates.
-/

namespace ControlStream

open ControlChar

namespace ControlSequence

/-! ### What a sequence spells -/

def isParam (c : Char) : Bool := isDecimal c || isSeparator c

/-- The parameter that some digits spell: their value, or the greatest there is. -/
def paramValue (digits : List Char) : Nat := min (Nat.ofDigitChars 10 digits 0) maxValue

/-- The parameters that digits and separators spell, one for each field between separators. -/
def paramsOf (p : List Char) : List Nat :=
  if p = [] then [] else (p.splitOnP isSeparator).map paramValue

inductive Meaning
  | modes (params : List Nat)
  | privateModes (params : List Nat)
  | nothing
  deriving DecidableEq, Repr

/-- What a control sequence with body `p` and final character `final` means. -/
def meaningOf (p : List Char) (final : Char) : Meaning :=
  if final = 'h' ∨ final = 'l' then
    if p.all isParam then .modes (paramsOf p)
    else if p.head? = some '?' ∧ p.tail.all isParam then .privateModes (paramsOf p.tail)
    else .nothing
  else .nothing

namespace Meaning

/-- The calls to the screen: mode 4 is the insert mode. -/
def calls (enabled : Bool) : Meaning → List Call
  | modes params => List.replicate (params.count 4) (.insert enabled)
  | privateModes _ | nothing => []

def onStore (enabled : Bool) (s : Store) : Meaning → Store
  | modes params => if 4 ∈ params then s.set .insertMode enabled else s
  | privateModes params => if 25 ∈ params then s.set .cursorVisible enabled else s
  | nothing => s

def onPage (enabled : Bool) (page : Page) : Meaning → Page
  | modes params => if 4 ∈ params then { page with inserting := enabled } else page
  | privateModes _ | nothing => page

def on {σ κ : Type} [Screen σ] (enabled : Bool) (a : Host σ κ) (m : Meaning) : Host σ κ :=
  { a with store := m.onStore enabled a.store, screen := replay (m.calls enabled) a.screen }

theorem replay_insert (n : Nat) (enabled : Bool) (page : Page) :
    replay (List.replicate (n + 1) (.insert enabled)) page =
      { page with inserting := enabled } := by
  induction n generalizing page with
  | zero => rfl
  | succ n ih => exact ih (page.setInsertMode enabled)

/-- What becomes of a page is what the calls make of it. -/
theorem replay_calls (enabled : Bool) (page : Page) (m : Meaning) :
    replay (m.calls enabled) page = m.onPage enabled page := by
  cases m with
  | modes params =>
    simp only [calls, onPage]
    split
    · rename_i hmem
      have hpos : 0 < params.count 4 := List.count_pos_iff.mpr hmem
      obtain ⟨n, hn⟩ := Nat.exists_eq_add_one.mpr hpos
      rw [hn]
      exact replay_insert n enabled page
    · rename_i hmem
      rw [List.count_eq_zero.mpr hmem]
      rfl
  | privateModes | nothing => rfl

end Meaning

/-! ### Fields -/

/-- A character that does not separate belongs to the last field. -/
theorem splitOnP_append_of_neg {α : Type} {p : α → Bool} {x : α} (hx : p x = false) (l : List α) :
    ∃ init last, l.splitOnP p = init ++ [last] ∧
      (l ++ [x]).splitOnP p = init ++ [last ++ [x]] := by
  induction l with
  | nil => exact ⟨[], [], rfl, by simp [List.splitOnP_cons_eq_if_modifyHead, hx]⟩
  | cons y l ih =>
    obtain ⟨init, last, hl, hlx⟩ := ih
    rw [List.cons_append, List.splitOnP_cons_eq_if_modifyHead,
      List.splitOnP_cons_eq_if_modifyHead, hl, hlx]
    split
    · exact ⟨[] :: init, last, rfl, rfl⟩
    · cases init with
      | nil => exact ⟨[], y :: last, rfl, rfl⟩
      | cons field init => exact ⟨(y :: field) :: init, last, rfl, rfl⟩

/-- A separator begins a new field. -/
theorem splitOnP_append_of_pos {α : Type} {p : α → Bool} {x : α} (hx : p x = true) (l : List α) :
    (l ++ [x]).splitOnP p = l.splitOnP p ++ [[]] := by
  rw [List.splitOnP_append_cons l [] hx, List.splitOnP_nil]

/-- The digits of a parameter are taken one after the other, and the value stops at the greatest. -/
theorem paramValue_append_singleton (digits : List Char) (c : Char) :
    paramValue (digits ++ [c]) =
      min (min (paramValue digits * 10) maxValue + (c.toNat - 0x30)) maxValue := by
  have hzero : '0'.toNat = 0x30 := rfl
  rw [paramValue, paramValue, Nat.ofDigitChars_append, Nat.ofDigitChars_cons, Nat.ofDigitChars_nil,
    hzero]
  omega

/-! ### Single characters -/

section Accept

variable {s : ControlSequence} {c : Char}

/-- A character that is not a control character of the C0 set or DEL is part of the sequence. -/
theorem absorb_eq_accept (hlow : 0x20 ≤ c.toNat) (hdel : c ≠ del) (s : ControlSequence) :
    s.absorb c = s.accept c := by
  have hexecutable : isExecutable c = false := by
    rw [← Bool.not_eq_true]
    simp only [isExecutable, Bool.and_eq_true, inRange_iff]
    omega
  have hnul : c ≠ nul := by
    rintro rfl
    exact absurd hlow (by decide)
  simp [absorb, hexecutable, hnul, hdel]

theorem phase_ne_ignore_of_inParams (h : s.inParams = true) : s.phase ≠ .ignore := by
  intro hs
  simp [inParams, hs] at h

theorem isDecimal_iff : isDecimal c = true ↔ 0x30 ≤ c.toNat ∧ c.toNat ≤ 0x39 := by
  rw [isDecimal, inRange_iff]

theorem isMarker_eq_false (h : c.toNat < 0x3C) : isMarker c = false := by
  rw [← Bool.not_eq_true]
  intro hc
  have := le_toNat_of_isMarker hc
  omega

theorem isParam_iff : isParam c = true ↔ isDecimal c = true ∨ isSeparator c = true := by
  rw [isParam, Bool.or_eq_true]

theorem bounds_of_isParam (h : isParam c = true) : 0x30 ≤ c.toNat ∧ c.toNat < 0x3C := by
  rw [isParam_iff, isDecimal_iff, isSeparator_iff] at h
  omega

theorem range_of_isMarker (h : isMarker c = true) : 0x20 ≤ c.toNat ∧ c.toNat < 0x40 := by
  simp only [isMarker, List.contains_iff_mem, List.mem_cons, List.not_mem_nil, or_false] at h
  rcases h with rfl | rfl | rfl | rfl <;> decide

theorem accept_of_isDecimal (hs : s.inParams = true) (hc : isDecimal c = true) :
    s.accept c = s.addDigit (c.toNat - 0x30) := by
  have hmarker : isMarker c = false := isMarker_eq_false (by rw [isDecimal_iff] at hc; omega)
  simp [accept, phase_ne_ignore_of_inParams hs, hs, hc, hmarker]

theorem accept_of_isSeparator (hs : s.inParams = true) (hc : isSeparator c = true) :
    s.accept c = s.addSeparator := by
  have hmarker : isMarker c = false := isMarker_eq_false (by rw [isSeparator_iff] at hc; omega)
  have hdecimal : isDecimal c = false := by
    rw [← Bool.not_eq_true, isDecimal_iff]
    rw [isSeparator_iff] at hc
    omega
  simp [accept, phase_ne_ignore_of_inParams hs, hs, hc, hmarker, hdecimal]

theorem accept_of_isIntermediate (hs : s.phase ≠ .ignore) (hc : isIntermediate c = true) :
    s.accept c = s.addIntermediate c := by
  have hrange := hc
  rw [isIntermediate, inRange_iff] at hrange
  have hmarker : isMarker c = false := isMarker_eq_false (by omega)
  have hdecimal : isDecimal c = false := by
    rw [← Bool.not_eq_true, isDecimal_iff]
    omega
  simp [accept, hs, hc, hmarker, hdecimal, not_separator_of_isIntermediate hc]

end Accept

/-! ### Markers and parameters -/

/-- The sequence has read a marker, if there is one, and then digits and separators. -/
structure HasRead (s : ControlSequence) (marker : Option Char) (p : List Char) : Prop where
  marker : s.marker = marker
  inParams : s.inParams = true
  onlyParams : ∀ c ∈ p, isParam c = true
  params : s.params ++ [s.value] = (p.splitOnP isSeparator).map paramValue
  hasDigit : s.hasDigit = p.getLast?.any isDecimal
  intermediates : s.intermediates = []

namespace HasRead

variable {s : ControlSequence} {marker : Option Char} {p : List Char} {c : Char}

theorem addDigit (h : s.HasRead marker p) (hc : isDecimal c = true) :
    (s.addDigit (c.toNat - 0x30)).HasRead marker (p ++ [c]) := by
  have hseparator : isSeparator c = false := by
    rw [isDecimal_iff] at hc
    exact (not_counted (.inr (.inl hc))).1
  obtain ⟨init, last, hp, hpc⟩ := splitOnP_append_of_neg hseparator p
  have hparams := h.params
  rw [hp, List.map_append] at hparams
  obtain ⟨hinit, hlast⟩ := List.append_inj' hparams rfl
  have hvalue : s.value = paramValue last := List.singleton_inj.mp hlast
  refine ⟨h.marker, rfl, ?_, ?_, ?_, h.intermediates⟩
  · simpa [or_imp, forall_and, isParam_iff, hc] using h.onlyParams
  · rw [hpc, List.map_append]
    simp only [ControlSequence.addDigit, hinit, hvalue, List.map_singleton,
      paramValue_append_singleton]
  · simp [ControlSequence.addDigit, hc]

theorem addSeparator (h : s.HasRead marker p) (hc : isSeparator c = true)
    (hroom : s.params.length < maxParams) : s.addSeparator.HasRead marker (p ++ [c]) := by
  have hdecimal : isDecimal c = false := by
    rw [← Bool.not_eq_true, isDecimal_iff]
    rw [isSeparator_iff] at hc
    omega
  have hadded : s.addSeparator = { s.pushParam with phase := .param } := if_neg (by omega)
  rw [hadded]
  refine ⟨h.marker, rfl, ?_, ?_, ?_, h.intermediates⟩
  · simpa [or_imp, forall_and, isParam_iff, hc] using h.onlyParams
  · rw [splitOnP_append_of_pos hc, List.map_append, ← h.params]
    rfl
  · simp [pushParam, hdecimal]

/-- What the final character acts on is what the digits and separators spell. -/
theorem finalParams_eq (h : s.HasRead marker p) : s.finalParams = paramsOf p := by
  have hparams := h.params
  have hdigit := h.hasDigit
  rcases List.eq_nil_or_concat p with rfl | ⟨q, c, rfl⟩
  · have hzero : s.params ++ [s.value] = [] ++ [0] := hparams
    obtain ⟨hnone, -⟩ := List.append_inj' hzero rfl
    simp [finalParams, paramsOf, hdigit, hnone]
  · rw [paramsOf, if_neg (by simp), ← hparams]
    rw [List.concat_eq_append, List.getLast?_concat] at hdigit
    rcases isParam_iff.mp (h.onlyParams c (by simp)) with hc | hc
    · have hdone : s.hasDigit = true := hdigit.trans hc
      simp [finalParams, pushParam, hdone]
    · rw [List.concat_eq_append, splitOnP_append_of_pos hc, List.map_append] at hparams
      obtain ⟨hfront, -⟩ := List.append_inj' hparams rfl
      have hne : s.params ≠ [] := by simp [hfront, List.splitOnP_ne_nil]
      simp [finalParams, pushParam, hne]

end HasRead

theorem ofBody_append_singleton (body : List Char) (c : Char) :
    ofBody (body ++ [c]) = (ofBody body).absorb c := List.foldl_append

theorem absorb_of_isParam {c : Char} (hc : isParam c = true) (s : ControlSequence) :
    s.absorb c = s.accept c := by
  have hbounds := bounds_of_isParam hc
  exact absorb_eq_accept (by omega) (by rintro rfl; exact absurd hbounds (by decide)) s

theorem ofBody_marker {marker : Option Char} (hmarker : ∀ c ∈ marker, isMarker c = true) :
    (ofBody marker.toList).HasRead marker [] := by
  cases marker with
  | none => exact ⟨rfl, rfl, nofun, rfl, rfl, rfl⟩
  | some c =>
    have hc : isMarker c = true := hmarker c rfl
    have habsorb : initial.absorb c = { initial with marker := some c, phase := .param } := by
      simp only [isMarker, List.contains_iff_mem, List.mem_cons, List.not_mem_nil, or_false] at hc
      rcases hc with rfl | rfl | rfl | rfl <;> rfl
    have hread : ofBody (some c).toList = { initial with marker := some c, phase := .param } :=
      habsorb
    rw [hread]
    exact ⟨rfl, rfl, nofun, rfl, rfl, rfl⟩

theorem countP_marker {marker : Option Char} (hmarker : ∀ c ∈ marker, isMarker c = true) :
    marker.toList.countP isSeparator = 0 := by
  rw [List.countP_eq_zero]
  intro c hc
  have hhigh := le_toNat_of_isMarker (hmarker c (Option.mem_toList.mp hc))
  simp [(not_counted (.inr (.inr hhigh))).1]

/-- A marker, if there is one, and then digits and separators are read as such. -/
theorem hasRead_ofBody {marker : Option Char} (hmarker : ∀ c ∈ marker, isMarker c = true)
    {p : List Char} (hp : ∀ c ∈ p, isParam c = true) (hcount : p.countP isSeparator ≤ maxParams) :
    (ofBody (marker.toList ++ p)).HasRead marker p := by
  induction p using List.reverseRecOn with
  | nil =>
    rw [List.append_nil]
    exact ofBody_marker hmarker
  | append_singleton p c ih =>
    rw [List.countP_append] at hcount
    have hread := ih (fun d hd => hp d (List.mem_append_left _ hd)) (by omega)
    have hc : isParam c = true := hp c (by simp)
    rw [← List.append_assoc, ofBody_append_singleton, absorb_of_isParam hc]
    rcases isParam_iff.mp hc with hdecimal | hseparator
    · rw [accept_of_isDecimal hread.inParams hdecimal]
      exact hread.addDigit hdecimal
    · -- As many parameters are complete as there were separators before this one.
      have hlength := (counts_ofBody (marker.toList ++ p)).params hread.inParams
      rw [List.countP_append, countP_marker hmarker, Nat.zero_add] at hlength
      rw [List.countP_singleton, if_pos hseparator] at hcount
      rw [accept_of_isSeparator hread.inParams hseparator]
      exact hread.addSeparator hseparator (by omega)

/-! ### Bodies of other kinds -/

/-- Only at its very beginning is a sequence at its entry. -/
theorem phase_accept_ne_entry (s : ControlSequence) (c : Char) : (s.accept c).phase ≠ .entry := by
  have haccepts := s.accepts_accept c
  generalize s.accept c = next at haccepts
  cases haccepts with
  | spoiled hphase | inside _ _ _ hphase => simp [hphase]
  | separator | intermediate => simp

theorem eq_nil_of_entry {p : List Char} (hp : ∀ c ∈ p, 0x20 ≤ c.toNat ∧ c ≠ del)
    (hentry : (ofBody p).phase = .entry) : p = [] := by
  rcases List.eq_nil_or_concat p with rfl | ⟨q, c, rfl⟩
  · rfl
  · obtain ⟨hlow, hdel⟩ := hp c (by simp)
    rw [List.concat_eq_append, ofBody_append_singleton, absorb_eq_accept hlow hdel] at hentry
    exact absurd hentry (phase_accept_ne_entry _ c)

/-- What must have come before a character after which a sequence is not ignored and has no
intermediates. -/
theorem open_of_accept {s : ControlSequence} {c : Char} (hopen : (s.accept c).phase ≠ .ignore)
    (hnone : (s.accept c).intermediates = []) :
    s.phase ≠ .ignore ∧ s.intermediates = [] ∧
      (s.phase = .entry ∧ isMarker c = true ∨ isParam c = true) := by
  have hphase : s.phase ≠ .ignore := by
    intro hs
    rw [accept, if_pos hs] at hopen
    exact hopen hs
  unfold accept at hopen hnone
  rw [if_neg hphase] at hopen hnone
  split_ifs at hopen hnone with hmarker hdigit hseparator hintermediate
  · exact ⟨hphase, hnone, .inl hmarker⟩
  · exact ⟨hphase, hnone, .inr (isParam_iff.mpr (.inl hdigit.2))⟩
  · refine ⟨hphase, ?_, .inr (isParam_iff.mpr (.inr hseparator.2))⟩
    unfold addSeparator at hnone
    split at hnone <;> exact hnone
  · unfold addIntermediate at hopen hnone
    split_ifs at hopen hnone with hfull hdone
    · exact absurd rfl hopen
    · simp at hnone
    · simp at hnone
  · exact absurd rfl hopen

/-- If a body has been read without intermediates, then it is a marker, if there is one, and then
digits and separators. -/
theorem exists_of_open {p : List Char} (hp : ∀ c ∈ p, 0x20 ≤ c.toNat ∧ c ≠ del)
    (hopen : (ofBody p).phase ≠ .ignore) (hnone : (ofBody p).intermediates = []) :
    ∃ (marker : Option Char) (q : List Char), p = marker.toList ++ q ∧
      (∀ c ∈ marker, isMarker c = true) ∧ ∀ c ∈ q, isParam c = true := by
  induction p using List.reverseRecOn with
  | nil => exact ⟨none, [], rfl, nofun, nofun⟩
  | append_singleton p c ih =>
    have hfront : ∀ d ∈ p, 0x20 ≤ d.toNat ∧ d ≠ del := fun d hd => hp d (List.mem_append_left _ hd)
    obtain ⟨hlow, hdel⟩ := hp c (by simp)
    rw [ofBody_append_singleton, absorb_eq_accept hlow hdel] at hopen hnone
    obtain ⟨hopen, hnone, ⟨hentry, hc⟩ | hc⟩ := open_of_accept hopen hnone
    · rw [eq_nil_of_entry hfront hentry]
      exact ⟨some c, [], rfl, by simpa using hc, nofun⟩
    · obtain ⟨marker, q, rfl, hmarker, hq⟩ := ih hfront hopen hnone
      refine ⟨marker, q ++ [c], List.append_assoc _ _ _, hmarker, ?_⟩
      simpa [or_imp, forall_and, hc] using hq

/-! ### Intermediates -/

section Intermediates

variable {s : ControlSequence} {marker : Option Char} {p ints : List Char} {c : Char}

/-- The sequence has read a marker, if there is one, then digits and separators and after these one
or more intermediates. The final character is going to act on `params`. -/
structure HasReadAll (s : ControlSequence) (marker : Option Char) (ints : List Char)
    (params : List Nat) : Prop where
  phase : s.phase = .intermediate
  marker : s.marker = marker
  intermediates : s.intermediates = ints
  finalParams : s.finalParams = params

/-- The first intermediate completes a parameter that has digits. The final character then completes
another one, without digits. -/
theorem HasRead.addIntermediate (h : s.HasRead marker p) (c : Char) :
    (s.addIntermediate c).HasReadAll marker [c]
      (paramsOf p ++ if p.getLast?.any isDecimal then [0] else []) := by
  have hroom : ¬ s.intermediates.length ≥ maxIntermediates := by
    rw [h.intermediates]
    decide
  have hparams := h.finalParams_eq
  rw [← h.hasDigit, ← hparams]
  rw [ControlSequence.addIntermediate, if_neg hroom]
  cases hdigit : s.hasDigit with
  | true => exact ⟨rfl, h.marker, by simp [pushParam, h.intermediates],
      by simp [finalParams, pushParam, hdigit]⟩
  | false => exact ⟨rfl, h.marker, by simp [h.intermediates],
      by simp [finalParams, pushParam, hdigit]⟩

/-- The second intermediate completes nothing. -/
theorem HasReadAll.addIntermediate {params : List Nat} (h : s.HasReadAll marker ints params)
    (hbounded : s.Bounded) (hroom : ints.length < maxIntermediates) (c : Char) :
    (s.addIntermediate c).HasReadAll marker (ints ++ [c]) params := by
  have hdigit := hbounded.noDigit h.phase
  rw [ControlSequence.addIntermediate, if_neg (by rw [h.intermediates]; omega)]
  simp only [hdigit, Bool.false_eq_true, if_false]
  refine ⟨rfl, h.marker, by rw [h.intermediates], ?_⟩
  rw [← h.finalParams]
  simp [ControlSequence.finalParams, pushParam, hdigit]

theorem absorb_of_isIntermediate (hc : isIntermediate c = true) (s : ControlSequence) :
    s.absorb c = s.accept c := by
  have hrange := hc
  rw [isIntermediate, inRange_iff] at hrange
  exact absorb_eq_accept hrange.1 (by rintro rfl; exact absurd hrange (by decide)) s

/-- What is made of a marker, if there is one, digits and separators and then intermediates. -/
theorem hasReadAll_ofBody {body : List Char} (h : (ofBody body).HasRead marker p)
    (hne : ints ≠ []) (hints : ∀ c ∈ ints, isIntermediate c = true)
    (hlength : ints.length ≤ maxIntermediates) :
    (ofBody (body ++ ints)).HasReadAll marker ints
      (paramsOf p ++ if p.getLast?.any isDecimal then [0] else []) := by
  induction ints using List.reverseRecOn with
  | nil => exact absurd rfl hne
  | append_singleton ints c ih =>
    have hc : isIntermediate c = true := hints c (by simp)
    rw [List.length_append, List.length_singleton] at hlength
    rw [← List.append_assoc, ofBody_append_singleton, absorb_of_isIntermediate hc]
    rcases ints with _ | ⟨d, ints⟩
    · rw [List.append_nil, accept_of_isIntermediate (phase_ne_ignore_of_inParams h.inParams) hc]
      exact h.addIntermediate c
    · have hread := ih (by simp) (fun e he => hints e (List.mem_append_left _ he)) (by omega)
      have hbounded := (counts_ofBody (body ++ d :: ints)).bounded
      rw [accept_of_isIntermediate (by simp [hread.phase]) hc]
      exact hread.addIntermediate hbounded (by omega) c

end Intermediates

end ControlSequence

end ControlStream
