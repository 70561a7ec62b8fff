import ControlStream.Proofs.ControlSequences
import ControlStream.Proofs.Fillers

/-!
# Control characters in sequences

Control characters may stand anywhere in an escape sequence or a control sequence. They are executed
at once, and the sequence goes on as if they had not been there. As nothing else of a sequence has
an effect before its last character, this is as if they had come before it.

## Main definitions

* `IsEmbeddable`: the control characters that do not break a sequence off.
* `Inserted`: a list with the elements of another one inserted.
* `IsSequence`: escape sequences and control sequences, with control characters in them.

## Main statements

* `Progress.meetAfter_of_isSequence`: the control characters in a sequence may come before it.
* `Terminal.Reachable.controls_hoisted`: so may control characters that are inserted into it, and
  NUL and DEL in a control sequence may be left out.
-/

namespace ControlStream

open ControlChar

/-! ### Insertions -/

/-- `w` is `q` with the elements of `cs` inserted into it, in their order. -/
inductive Inserted {α : Type} : List α → List α → List α → Prop
  | nil : Inserted [] [] []
  | kept (c : α) {cs q w : List α} (h : Inserted cs q w) : Inserted cs (c :: q) (c :: w)
  | inserted (c : α) {cs q w : List α} (h : Inserted cs q w) : Inserted (c :: cs) q (c :: w)

namespace Inserted

variable {α : Type} {cs q w : List α}

theorem mem_iff (h : Inserted cs q w) {c : α} : c ∈ w ↔ c ∈ cs ∨ c ∈ q := by
  induction h with
  | nil => simp
  | kept d _ ih => rw [List.mem_cons, List.mem_cons, ih, or_left_comm]
  | inserted d _ ih => rw [List.mem_cons, List.mem_cons, ih, or_assoc]

/-- Of the elements of `q` and `cs`, a property of those of `cs` only singles these out. -/
theorem filter_eq (h : Inserted cs q w) {p : α → Bool} (hcs : ∀ c ∈ cs, p c = true)
    (hq : ∀ c ∈ q, p c = false) : w.filter p = cs := by
  induction h with
  | nil => rfl
  | kept c _ ih =>
    rw [List.forall_mem_cons] at hq
    rw [List.filter_cons_of_neg (by simp [hq.1])]
    exact ih hcs hq.2
  | inserted c _ ih =>
    rw [List.forall_mem_cons] at hcs
    rw [List.filter_cons_of_pos hcs.1, ih hcs.2 hq]

/-- Elements that a fold does not take into account may be left out. -/
theorem foldl_eq {β : Type} {f : β → α → β} (h : Inserted cs q w)
    (hcs : ∀ c ∈ cs, ∀ b, f b c = b) (b : β) : w.foldl f b = q.foldl f b := by
  induction h generalizing b with
  | nil => rfl
  | kept c _ ih => exact ih hcs (f b c)
  | inserted c _ ih =>
    rw [List.forall_mem_cons] at hcs
    rw [List.foldl_cons, hcs.1]
    exact ih hcs.2 b

/-- Elements without a property may be left out before those with it are selected. -/
theorem filter_eq_filter (h : Inserted cs q w) {p : α → Bool} (hcs : ∀ c ∈ cs, p c = false) :
    w.filter p = q.filter p := by
  induction h with
  | nil => rfl
  | kept c _ ih => rw [List.filter_cons, List.filter_cons, ih hcs]
  | inserted c _ ih =>
    rw [List.forall_mem_cons] at hcs
    rw [List.filter_cons_of_neg (by simp [hcs.1])]
    exact ih hcs.2

/-- The elements with a property are inserted into the others. -/
theorem of_filter (p : α → Bool) (w : List α) :
    Inserted (w.filter p) (w.filter (!p ·)) w := by
  induction w with
  | nil => exact .nil
  | cons c w ih =>
    by_cases hc : p c = true
    · rw [List.filter_cons_of_pos hc, List.filter_cons_of_neg (by simp [hc])]
      exact ih.inserted c
    · rw [List.filter_cons_of_neg hc, List.filter_cons_of_pos (by simp [hc])]
      exact ih.kept c

/-- Elements that are inserted stand before or after an element that was there. -/
theorem exists_cons {a b : List α} {c : α} (h : Inserted cs (a ++ c :: b) w) :
    ∃ before after a' b', w = a' ++ c :: b' ∧ cs = before ++ after ∧ Inserted before a a' ∧
      Inserted after b b' := by
  generalize hq : a ++ c :: b = q at h
  induction h generalizing a with
  | nil => simp at hq
  | kept d h ih =>
    cases a with
    | nil =>
      obtain ⟨rfl, rfl⟩ := List.cons.inj hq
      exact ⟨[], _, [], _, rfl, rfl, .nil, h⟩
    | cons e a =>
      obtain ⟨rfl, htail⟩ := List.cons.inj hq
      obtain ⟨before, after, a', b', rfl, rfl, hbefore, hafter⟩ := ih htail
      exact ⟨before, after, e :: a', b', rfl, rfl, hbefore.kept e, hafter⟩
  | inserted d _ ih =>
    obtain ⟨before, after, a', b', rfl, rfl, hbefore, hafter⟩ := ih hq
    exact ⟨d :: before, after, d :: a', b', rfl, rfl, hbefore.inserted d, hafter⟩

end Inserted

/-! ### Sequences -/

/-- A control character that is executed in a sequence without breaking it off: each of the C0 set
but NUL, ESC, CAN and SUB. -/
def IsEmbeddable (c : Char) : Prop := isExecutable c = true ∧ c ≠ can ∧ c ≠ sub

instance (c : Char) : Decidable (IsEmbeddable c) :=
  inferInstanceAs (Decidable (isExecutable c = true ∧ c ≠ can ∧ c ≠ sub))

namespace EscapeSequence

/-- The characters that may stand between ESC and the final character. -/
def IsInside (c : Char) : Prop := isIntermediate c = true ∨ IsEmbeddable c

instance (c : Char) : Decidable (IsInside c) :=
  inferInstanceAs (Decidable (isIntermediate c = true ∨ IsEmbeddable c))

/-- The characters that end an escape sequence. -/
def IsFinal (c : Char) : Prop :=
  c ≠ esc ∧ isExecutable c = false ∧ isIntermediate c = false

instance (c : Char) : Decidable (IsFinal c) :=
  inferInstanceAs (Decidable (c ≠ esc ∧ isExecutable c = false ∧ isIntermediate c = false))

/-- Take a character into account that goes on with a sequence. Control characters are not part of
it. -/
def absorb (e : EscapeSequence) (c : Char) : EscapeSequence :=
  if isExecutable c then e
  else
    match e.intermediate with
    | none => ⟨some (.ofChar c)⟩
    | some _ => ⟨some (.other c)⟩

theorem absorb_of_isExecutable (e : EscapeSequence) {c : Char} (hc : isExecutable c = true) :
    e.absorb c = e := if_pos hc

/-- A character that goes on with a sequence is executed, or it is taken into account. -/
theorem process_of_inside {σ κ : Type} [Screen σ] (e : EscapeSequence) {c : Char}
    (hc : IsInside c) (ctx : Context σ κ) :
    e.process c ctx =
      ⟨.escape, e.absorb c, if isExecutable c then ctx.executeControl c else ctx⟩ := by
  have hesc : c ≠ esc := by
    rintro rfl
    exact absurd hc (by decide)
  have hbreak : ¬ (c = can ∨ c = sub) := by
    rintro (rfl | rfl) <;> exact absurd hc (by decide)
  rw [process, if_neg hesc, if_neg hbreak]
  by_cases hexecutable : isExecutable c = true
  · simp only [absorb, hexecutable, if_true]
  · have hintermediate : isIntermediate c = true := hc.resolve_right fun h => hexecutable h.1
    obtain ⟨intermediate⟩ := e
    cases intermediate <;>
      simp only [absorb, hexecutable, hintermediate, if_false, if_true, Bool.false_eq_true]

end EscapeSequence

/-- An escape sequence or a control sequence: its first character, what stands between that and the
last one, and the last one. There may be control characters in it, but none that break it off. -/
inductive IsSequence : Char → List Char → Char → Prop
  | escape {mid : List Char} {final : Char} (hmid : ∀ c ∈ mid, EscapeSequence.IsInside c)
    (hfinal : EscapeSequence.IsFinal final) : IsSequence esc mid final
  /-- A control sequence that is opened with ESC and a bracket. -/
  | pair {pre body : List Char} {final : Char} (hpre : ∀ c ∈ pre, IsEmbeddable c)
    (hbody : ControlSequence.IsBody body) (hfinal : isControlFinal final = true) :
    IsSequence esc (pre ++ '[' :: body) final
  | single {body : List Char} {final : Char} (hbody : ControlSequence.IsBody body)
    (hfinal : isControlFinal final = true) : IsSequence csi body final

/-- What opens a control sequence, with control characters in it. -/
inductive IsControlOpening : List Char → Prop
  | pair {pre : List Char} (hpre : ∀ c ∈ pre, IsEmbeddable c) :
    IsControlOpening (esc :: (pre ++ ['[']))
  | single : IsControlOpening [csi]

theorem IsEmbeddable.isContinuation {c : Char} (hc : IsEmbeddable c) :
    ControlSequence.IsContinuation c := by
  obtain ⟨hexecutable, hcan, hsub⟩ := hc
  simp only [isExecutable, Bool.and_eq_true, inRange_iff, bne_iff_ne, ne_eq] at hexecutable
  refine ⟨hexecutable.2, hcan, hsub, ?_⟩
  rw [← Bool.not_eq_true, isControlFinal, inRange_iff]
  omega

theorem ControlSequence.absorb_of_isExecutable (s : ControlSequence) {c : Char}
    (hc : isExecutable c = true) : s.absorb c = s := if_pos (.inl hc)

theorem ControlSequence.IsBody.insert {cs body body' : List Char} (hbody : IsBody body)
    (hcs : ∀ c ∈ cs, IsContinuation c) (h : Inserted cs body body') : IsBody body' := by
  intro c hc
  rcases h.mem_iff.mp hc with hc | hc
  · exact hcs c hc
  · exact hbody c hc

/-- With control characters inserted, a sequence is one still. -/
theorem IsSequence.insert {first final : Char} {cs mid mid' : List Char}
    (h : IsSequence first mid final) (hcs : ∀ c ∈ cs, IsEmbeddable c)
    (hinserted : Inserted cs mid mid') : IsSequence first mid' final := by
  have hbody : ∀ {cs' body body' : List Char}, (∀ c ∈ cs', c ∈ cs) →
      ControlSequence.IsBody body → Inserted cs' body body' → ControlSequence.IsBody body' :=
    fun hsubset hbody h => hbody.insert (fun c hc => (hcs c (hsubset c hc)).isContinuation) h
  cases h with
  | escape hmid hfinal =>
    refine .escape (fun c hc => ?_) hfinal
    rcases hinserted.mem_iff.mp hc with hc | hc
    · exact .inr (hcs c hc)
    · exact hmid c hc
  | pair hpre hbody' hfinal =>
    obtain ⟨before, after, pre', body', rfl, rfl, hbefore, hafter⟩ := hinserted.exists_cons
    refine .pair (fun c hc => ?_)
      (hbody (fun c hc => List.mem_append.mpr (.inr hc)) hbody' hafter) hfinal
    rcases hbefore.mem_iff.mp hc with hc | hc
    · exact hcs c (List.mem_append.mpr (.inl hc))
    · exact hpre c hc
  | single hbody' hfinal => exact .single (hbody (fun _ hc => hc) hbody' hinserted) hfinal

/-! ### What the characters of a sequence do -/

namespace Progress

variable {σ κ : Type} {x : Progress σ κ}

def inEscape (x : Progress σ κ) (e : EscapeSequence) : Progress σ κ :=
  ⟨{ x.interpreter with state := .escape, escape := e }, x.context⟩

theorem textDone_inEscape (htext : x.interpreter.textRun = .empty) (e : EscapeSequence) :
    (x.inEscape e).interpreter.TextDone := ⟨by simp [inEscape], htext⟩

variable [Screen σ] [Clipboard κ]

theorem tick_inEscape (x : Progress σ κ) (e : EscapeSequence) (c : Char) :
    (x.inEscape e).tick c =
      ⟨{ x.interpreter with
          state := (e.process c x.context).state
          escape := (e.process c x.context).part }, (e.process c x.context).context⟩ := rfl

theorem leadsTo_inside (htext : x.interpreter.textRun = .empty) (e : EscapeSequence) {c : Char}
    (hc : EscapeSequence.IsInside c) :
    (x.inEscape e).LeadsTo [c]
      ((x.executed ([c].filter isExecutable)).inEscape (e.absorb c)) := by
  apply LeadsTo.single
  · exact textDone_inEscape htext e
  · exact textDone_inEscape htext _
  · rw [tick_inEscape, e.process_of_inside hc]
    refine ⟨rfl, (?_ : Context.toHost _ = _).trans (toHost_executed_filter x c).symm⟩
    exact apply_ite Context.toHost _ _ _

/-- While something else than text is in progress, a character leads to where it leads. -/
theorem leadsTo_tick (hdone : x.interpreter.TextDone) (hready : x.interpreter.state ≠ .ready)
    (c : Char) : x.LeadsTo [c] (x.tick c) :=
  .single hdone (textDone_tick hready hdone c) (.refl _)

theorem filter_filter_not (l : List Char) :
    (l.filter (!isExecutable ·)).filter isExecutable = [] := by
  simp [List.filter_filter]

theorem filter_of_embeddable {l : List Char} (hl : ∀ c ∈ l, IsEmbeddable c) :
    l.filter isExecutable = l ∧ l.filter (!isExecutable ·) = [] :=
  ⟨List.filter_eq_self.mpr fun c hc => (hl c hc).1,
    List.filter_eq_nil_iff.mpr fun c hc => by simp [(hl c hc).1]⟩

/-- Control characters are not part of an escape sequence. -/
theorem foldl_absorb_filter (mid : List Char) :
    (mid.filter (!isExecutable ·)).foldl EscapeSequence.absorb .initial =
      mid.foldl EscapeSequence.absorb .initial := by
  have hinserted := Inserted.of_filter isExecutable mid
  exact (hinserted.foldl_eq
    (fun _ hc e => e.absorb_of_isExecutable (List.mem_filter.mp hc).2) _).symm

section Idle

variable (hidle : x.interpreter.Idle)
include hidle

/-- What comes before the last character of an escape sequence does nothing but that control
characters are executed. -/
theorem leadsTo_escapeBody {mid : List Char} (hmid : ∀ c ∈ mid, EscapeSequence.IsInside c) :
    x.LeadsTo (esc :: mid) ((x.executed (mid.filter isExecutable)).inEscape
      (mid.foldl EscapeSequence.absorb .initial)) := by
  have hopened : x.withState .escape = x.inEscape .initial := by
    rw [withState, inEscape, ← hidle.clear.escape]
  have hesc : x.LeadsTo [esc] (x.withState .escape) :=
    leadsTo_single hidle.textDone hidle.ready (by simp) rfl
  rw [hopened] at hesc
  exact hesc.append (leadsTo_foldl textDone_inEscape leadsTo_inside hidle.textRun .initial hmid)

/-- Before its last character, an escape sequence does nothing but that control characters are
executed. -/
theorem leadsTo_escapeSequence {mid : List Char} (hmid : ∀ c ∈ mid, EscapeSequence.IsInside c)
    (final : Char) :
    x.LeadsTo (esc :: (mid ++ [final])) (((x.executed (mid.filter isExecutable)).inEscape
      (mid.foldl EscapeSequence.absorb .initial)).tick final) := by
  have hbody := leadsTo_escapeBody hidle hmid
  have hfinal := leadsTo_tick hbody.textDone (by simp [inEscape]) final
  exact hbody.append hfinal

/-- Before its last character, a control sequence does nothing but that control characters are
executed. -/
theorem leadsTo_controlSequence {i controls body : List Char}
    (hopened : x.LeadsTo i ((x.executed controls).inControl .initial))
    (hbody : ControlSequence.IsBody body) (final : Char) :
    x.LeadsTo (i ++ (body ++ [final]))
      (((x.executed (controls ++ body.filter isExecutable)).inControl (.ofBody body)).tick
        final) := by
  have hread := leadsTo_body (x := x.executed controls) hidle.textRun .initial hbody
  have hexecuted : (x.executed controls).executed (body.filter isExecutable) =
      x.executed (controls ++ body.filter isExecutable) := by
    rw [executed, executed, executed, List.foldl_append]
  rw [hexecuted] at hread
  have hfinal := leadsTo_tick hread.textDone (by simp [inControl]) final
  exact hopened.append (hread.append hfinal)

/-- Control characters between ESC and the bracket that opens a control sequence are executed. -/
theorem leadsTo_bracket {pre : List Char} (hpre : ∀ c ∈ pre, IsEmbeddable c) :
    x.LeadsTo (esc :: (pre ++ ['['])) ((x.executed pre).inControl .initial) := by
  obtain ⟨hexecuted, hnone⟩ := filter_of_embeddable hpre
  have habsorbed : pre.foldl EscapeSequence.absorb .initial = .initial := by
    rw [← foldl_absorb_filter, hnone]
    rfl
  have hleads := leadsTo_escapeSequence hidle (fun c hc => .inr (hpre c hc)) '['
  have hbracket : ((x.executed pre).inEscape .initial).tick '[' =
      (x.executed pre).inControl .initial := by
    have hescape : x.interpreter.escape = .initial := hidle.clear.escape
    have hcontrol : x.interpreter.control = .initial := hidle.clear.control
    have hprocess : EscapeSequence.initial.process '[' (x.executed pre).context =
        ⟨.control, .initial, (x.executed pre).context⟩ := rfl
    rw [tick_inEscape, hprocess, inControl, ← hcontrol, ← hescape]
    rfl
  rwa [hexecuted, habsorbed, hbracket] at hleads

/-- Without its control characters an escape sequence leads to the same point. -/
theorem leadsTo_escapeSequence_filter {mid : List Char}
    (hmid : ∀ c ∈ mid, EscapeSequence.IsInside c) (final : Char) :
    x.LeadsTo (esc :: (mid.filter (!isExecutable ·) ++ [final]))
      ((x.inEscape (mid.foldl EscapeSequence.absorb .initial)).tick final) := by
  have hkept := leadsTo_escapeSequence hidle
    (fun c hc => hmid c (List.mem_filter.mp hc).1 : ∀ c ∈ mid.filter (!isExecutable ·), _) final
  rw [filter_filter_not, foldl_absorb_filter] at hkept
  exact hkept

/-- Without the control characters in its body a control sequence leads to the same point. -/
theorem leadsTo_controlSequence_filter {i body : List Char}
    (hopened : x.LeadsTo i (x.inControl .initial)) (hbody : ControlSequence.IsBody body)
    (final : Char) :
    x.LeadsTo (i ++ (body.filter (!isExecutable ·) ++ [final]))
      ((x.inControl (.ofBody body)).tick final) := by
  have hexecuted : x.LeadsTo i ((x.executed []).inControl .initial) := hopened
  have hkept := leadsTo_controlSequence hidle hexecuted
    (fun c hc => hbody c (List.mem_filter.mp hc).1 :
      ControlSequence.IsBody (body.filter (!isExecutable ·))) final
  have habsorbed : ControlSequence.ofBody body =
      ControlSequence.ofBody (body.filter (!isExecutable ·)) :=
    (Inserted.of_filter isExecutable body).foldl_eq
      (fun _ hc s => s.absorb_of_isExecutable (List.mem_filter.mp hc).2) _
  rw [filter_filter_not, ← habsorbed] at hkept
  exact hkept

/-- A control sequence is opened, and the control characters that stand in its opening are
executed. -/
theorem exists_leadsTo_opening {i : List Char} (hi : IsControlOpening i) :
    ∃ controls, x.LeadsTo i ((x.executed controls).inControl .initial) := by
  cases hi with
  | pair hpre => exact ⟨_, leadsTo_bracket hidle hpre⟩
  | single => exact ⟨[], leadsTo_controlIntroducer hidle (by decide)⟩

/-- NUL and DEL make no difference to a control sequence. -/
theorem meetAfter_of_fillers {i body body' fs : List Char} (hi : IsControlOpening i)
    (hbody : ControlSequence.IsBody body) (hfs : ∀ c ∈ fs, c ∈ fillers)
    (hinserted : Inserted fs body body') (final : Char) :
    x.MeetAfter (i ++ (body' ++ [final])) (i ++ (body ++ [final])) := by
  obtain ⟨controls, hopened⟩ := exists_leadsTo_opening hidle hi
  have hdropped : ∀ c ∈ fs, ControlSequence.IsContinuation c ∧ isExecutable c = false ∧
      ∀ s : ControlSequence, s.absorb c = s := by
    intro c hc
    rcases eq_of_mem_fillers (hfs c hc) with rfl | rfl
    · exact ⟨by decide, rfl, fun _ => rfl⟩
    · exact ⟨by decide, rfl, fun _ => rfl⟩
  have hbody' := hbody.insert (fun c hc => (hdropped c hc).1) hinserted
  have hexecuted := hinserted.filter_eq_filter fun c hc => (hdropped c hc).2.1
  have habsorbed : ControlSequence.ofBody body' = ControlSequence.ofBody body :=
    hinserted.foldl_eq (fun c hc => (hdropped c hc).2.2) .initial
  have hleft := leadsTo_controlSequence hidle hopened hbody' final
  rw [hexecuted, habsorbed] at hleft
  exact hleft.meetAfter (leadsTo_controlSequence hidle hopened hbody final)

end Idle

/-- Where a sequence leads does not depend on its control characters but for their being executed
first. -/
theorem exists_leadsTo_sequence {first final : Char} {mid : List Char}
    (h : IsSequence first mid final) :
    ∃ put : Progress σ κ → Progress σ κ, ∀ {x : Progress σ κ}, x.interpreter.Idle →
      x.LeadsTo (first :: (mid ++ [final])) (put (x.executed (mid.filter isExecutable))) ∧
      x.LeadsTo (first :: (mid.filter (!isExecutable ·) ++ [final])) (put x) := by
  cases h with
  | escape hmid _ =>
    refine ⟨fun y => (y.inEscape (mid.foldl EscapeSequence.absorb .initial)).tick final, ?_⟩
    intro x hidle
    exact ⟨leadsTo_escapeSequence hidle hmid final, leadsTo_escapeSequence_filter hidle hmid final⟩
  | @pair pre body _ hpre hbody _ =>
    refine ⟨fun y => (y.inControl (.ofBody body)).tick final, ?_⟩
    intro x hidle
    obtain ⟨hpre', hnone⟩ := filter_of_embeddable hpre
    have hexecuted : (pre ++ '[' :: body).filter isExecutable =
        pre ++ body.filter isExecutable := by
      rw [List.filter_append, hpre']
      rfl
    have hkept : (pre ++ '[' :: body).filter (!isExecutable ·) =
        '[' :: body.filter (!isExecutable ·) := by
      rw [List.filter_append, hnone]
      rfl
    have hbracket := leadsTo_controlIntroducer (i := [esc, '[']) hidle (by decide)
    have hleads := leadsTo_controlSequence hidle (leadsTo_bracket hidle hpre) hbody final
    rw [List.cons_append, List.append_assoc] at hleads
    rw [hexecuted, hkept, List.append_assoc]
    exact ⟨hleads, leadsTo_controlSequence_filter hidle hbracket hbody final⟩
  | single hbody _ =>
    refine ⟨fun y => (y.inControl (.ofBody mid)).tick final, ?_⟩
    intro x hidle
    have hopened := leadsTo_controlIntroducer (i := [csi]) hidle (by decide)
    have hexecuted : x.LeadsTo [csi] ((x.executed []).inControl .initial) := hopened
    exact ⟨leadsTo_controlSequence hidle hexecuted hbody final,
      leadsTo_controlSequence_filter hidle hopened hbody final⟩

/-- The control characters in a sequence may come before it. -/
theorem meetAfter_of_isSequence {first final : Char} {mid : List Char}
    (h : IsSequence first mid final) {x : Progress σ κ} (hidle : x.interpreter.Idle) :
    x.MeetAfter (first :: (mid ++ [final]))
      (mid.filter isExecutable ++ first :: (mid.filter (!isExecutable ·) ++ [final])) := by
  obtain ⟨put, hput⟩ := exists_leadsTo_sequence (σ := σ) (κ := κ) h
  have hcontrols : x.LeadsTo (mid.filter isExecutable) (x.executed (mid.filter isExecutable)) :=
    leadsTo_executed hidle fun c hc => (List.mem_filter.mp hc).2
  have hidle' : (x.executed (mid.filter isExecutable)).interpreter.Idle := hidle
  exact (hput hidle).1.meetAfter (hcontrols.append (hput hidle').2)

end Progress

/-! ### Deliveries -/

namespace Terminal

/-- With control characters inserted anywhere between its first and its last character, a sequence
has the effect that all control characters in it have, in their order, and then that of the sequence
without any. So if there were none in it before, those inserted may as well come before it. NUL and
DEL that are inserted behind the opening of a control sequence have no effect. -/
theorem Reachable.controls_hoisted {σ κ : Type} [Screen σ] [Clipboard κ] {t : Terminal σ κ}
    (h : t.Reachable) (hready : t.state = .ready) :
    (∀ {first final : Char} {mid cs mid' : List Char}, IsSequence first mid final →
      (∀ c ∈ cs, IsEmbeddable c) → Inserted cs mid mid' →
      t.SameEffect (first :: (mid' ++ [final]))
        (mid'.filter isExecutable ++ first :: (mid.filter (!isExecutable ·) ++ [final])) ∧
      ((∀ c ∈ mid, isExecutable c = false) →
        t.SameEffect (first :: (mid' ++ [final])) (cs ++ first :: (mid ++ [final])))) ∧
    ∀ {i body fs body' : List Char} {final : Char}, IsControlOpening i →
      ControlSequence.IsBody body → isControlFinal final = true → (∀ c ∈ fs, c ∈ fillers) →
      Inserted fs body body' →
      t.SameEffect (i ++ (body' ++ [final])) (i ++ (body ++ [final])) := by
  constructor
  · intro first final mid cs mid' hsequence hcs hinserted
    have hexecuted : ∀ c ∈ cs, isExecutable c = true := fun c hc => (hcs c hc).1
    have hkept : mid'.filter (!isExecutable ·) = mid.filter (!isExecutable ·) :=
      hinserted.filter_eq_filter fun c hc => by simp [hexecuted c hc]
    have hsame : t.SameEffect (first :: (mid' ++ [final]))
        (mid'.filter isExecutable ++ first :: (mid.filter (!isExecutable ·) ++ [final])) :=
      h.atRest.sameEffect hready fun hidle =>
        hkept ▸ Progress.meetAfter_of_isSequence (hsequence.insert hcs hinserted) hidle
    refine ⟨hsame, fun hplain => ?_⟩
    have hmid : mid.filter (!isExecutable ·) = mid :=
      List.filter_eq_self.mpr fun c hc => by simp [hplain c hc]
    rwa [hinserted.filter_eq hexecuted hplain, hmid] at hsame
  · intro i body fs body' final hi hbody _ hfs hinserted
    exact h.atRest.sameEffect hready fun hidle =>
      Progress.meetAfter_of_fillers hidle hi hbody hfs hinserted final

/-- A carriage return after ESC and a line feed between two digits. -/
theorem controls_hoisted_insertMode :
    let t := onPage (.empty 80) .standard
    t.Reachable ∧ t.state = .ready ∧ IsSequence esc ['[', '0', '4'] 'h' ∧
      Inserted [cr, lf] ['[', '0', '4'] [cr, '[', '0', lf, '4'] ∧
      Inserted [nul] ['0', '4'] ['0', nul, '4'] ∧
      t.write [esc, cr, '[', '0', lf, '4', 'h'] = t.write [cr, lf, esc, '[', '0', '4', 'h'] ∧
      t.write [csi, '0', nul, '4', 'h'] = t.write [csi, '0', '4', 'h'] := by
  have hreachable : (onPage (.empty 80) .standard).Reachable := .onScreen _ _ _
  have hsequence : IsSequence esc ['[', '0', '4'] 'h' :=
    @IsSequence.pair [] ['0', '4'] 'h' nofun (by decide) rfl
  have hcontrols : Inserted [cr, lf] ['[', '0', '4'] [cr, '[', '0', lf, '4'] :=
    .inserted _ (.kept _ (.kept _ (.inserted _ (.kept _ .nil))))
  have hnul : Inserted [nul] ['0', '4'] ['0', nul, '4'] := .kept _ (.inserted _ (.kept _ .nil))
  have hembeddable : ∀ c ∈ [cr, lf], IsEmbeddable c := by simpa using by decide
  have hplain : ∀ c ∈ ['[', '0', '4'], isExecutable c = false := by simp [isExecutable]
  have hfillers : ∀ c ∈ [nul], c ∈ fillers := by simp [fillers]
  have hfinal : isControlFinal 'h' = true := rfl
  obtain ⟨hsequences, hbodies⟩ := Reachable.controls_hoisted hreachable rfl
  obtain ⟨-, hhoisted⟩ := hsequences hsequence hembeddable hcontrols
  have hdropped := hbodies .single (by decide) hfinal hfillers hnul
  exact ⟨hreachable, rfl, hsequence, hcontrols, hnul,
    (hhoisted hplain).eq List.flatten_singleton List.flatten_singleton,
    hdropped.eq List.flatten_singleton List.flatten_singleton⟩

/-- A carriage return that is inserted after a tab of the sequence itself is executed after it, and
not before. -/
theorem controls_not_hoisted_tab :
    let t := onPage (.empty 80) .standard
    t.Reachable ∧ t.state = .ready ∧ IsSequence csi [tab, '4'] 'h' ∧ IsEmbeddable cr ∧
      Inserted [cr] [tab, '4'] [tab, cr, '4'] ∧
      (t.write [csi, tab, cr, '4', 'h']).screen.column = 0 ∧
      (t.write [cr, csi, tab, '4', 'h']).screen.column = 8 := by
  have hreachable : (onPage (.empty 80) .standard).Reachable := .onScreen _ _ _
  have hsequence : IsSequence csi [tab, '4'] 'h' := .single (by decide) rfl
  have hinserted : Inserted [cr] [tab, '4'] [tab, cr, '4'] := .kept _ (.inserted _ (.kept _ .nil))
  refine ⟨hreachable, rfl, hsequence, by decide, hinserted, ?_, ?_⟩
  · rw [screen, write_eq hreachable.atRest]
    rfl
  · rw [screen, write_eq hreachable.atRest]
    rfl

end Terminal

end ControlStream
