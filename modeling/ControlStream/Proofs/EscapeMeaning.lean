import ControlStream.Proofs.Actions
import ControlStream.Proofs.ControlMeaning
import ControlStream.Proofs.EmbeddedControls

/-!
# What escape sequences do

An escape sequence takes effect at its final character. Without intermediates that character decides
alone. A single intermediate may name one of the slots G0 to G3, and the final character then
designates a character set into it. With any other intermediates, however many there are, nothing
happens. Nothing is left of the sequence in any case, so what follows is interpreted from where the
sequence has led.

## Main definitions

* `EscapeSequence.Meaning`, `EscapeSequence.meaningOf`: what intermediates and a final character
  mean.
* `Terminal.afterEscape`: a terminal after an escape sequence of some meaning.

## Main statements

* `EscapeSequence.process_foldl_absorb`: the final character does what the sequence means.
* `Terminal.Reachable.escape_meaning`: so does the whole sequence, in whatever pieces.
-/

namespace ControlStream

open ControlChar

/-! ### What a sequence means -/

namespace EscapeSequence

inductive Meaning
  /-- A control sequence or a string begins. -/
  | opens (state : Interpreter.State)
  | designate (slot : Fin 4) (charset : Charset)
  /-- The next character alone is sent through another slot. -/
  | singleShift (slot : UInt8)
  /-- The keypad sends application codes, or no longer does. -/
  | keypad (application : Bool)
  | fullReset
  | nothing
  deriving DecidableEq, Repr

namespace Meaning

def ofFinal : Char → Meaning
  | '[' => opens .control
  | ']' => opens .command
  | 'P' | 'X' | '^' | '_' => opens .skipped
  | 'N' => singleShift 2
  | 'O' => singleShift 3
  | '=' => keypad true
  | '>' => keypad false
  | 'c' => fullReset
  | _ => nothing

def ofDesignation (slot : Fin 4) (final : Char) : Meaning :=
  if isGraphicFinal final then designate slot (.ofDesignation final) else nothing

def next : Meaning → Interpreter.State
  | opens state => state
  | designate .. | singleShift _ | keypad _ | fullReset | nothing => .ready

def calls : Meaning → List Call
  | fullReset => [.insert false]
  | opens _ | designate .. | singleShift _ | keypad _ | nothing => []

/-- What becomes of a store. A designation leaves the other slots and the shifts as they are, and a
single shift all but itself. -/
def onStore (s : Store) : Meaning → Store
  | designate slot charset =>
    let g := s.getD .graphicSet .initial
    s.set .graphicSet { g with slots := g.slots.set slot charset }
  | singleShift slot =>
    let g := s.getD .graphicSet .initial
    s.set .graphicSet { g with singleShift := some slot }
  | keypad application => s.set .applicationKeypad application
  | fullReset => s.fullReset
  | opens _ | nothing => s

def on {σ κ : Type} [Screen σ] (a : Host σ κ) (m : Meaning) : Host σ κ :=
  { a with store := m.onStore a.store, screen := replay m.calls a.screen }

end Meaning

def meaningOf : List Char → Char → Meaning
  | [], final => .ofFinal final
  | ['('], final => .ofDesignation 0 final
  | [')'], final => .ofDesignation 1 final
  | ['*'], final => .ofDesignation 2 final
  | ['+'], final => .ofDesignation 3 final
  | _, _ => .nothing

/-! ### The final character -/

theorem isExecutable_of_isIntermediate {c : Char} (hc : isIntermediate c = true) :
    isExecutable c = false := by
  rw [isIntermediate, inRange_iff] at hc
  rw [← Bool.not_eq_true]
  simp only [isExecutable, Bool.and_eq_true, inRange_iff]
  omega

theorem absorb_initial {c : Char} (hc : isIntermediate c = true) :
    initial.absorb c = ⟨some (.ofChar c)⟩ :=
  if_neg (by simp [isExecutable_of_isIntermediate hc])

theorem absorb_of_some (seen : Intermediate) {c : Char} (hc : isIntermediate c = true) :
    absorb ⟨some seen⟩ c = ⟨some (.other c)⟩ :=
  if_neg (by simp [isExecutable_of_isIntermediate hc])

/-- Once there are two intermediates, no slot is named any more. -/
theorem exists_other_of_foldl_absorb (seen : Intermediate) {c : Char} {ints : List Char}
    (hints : ∀ d ∈ c :: ints, isIntermediate d = true) :
    ∃ d, (c :: ints).foldl absorb ⟨some seen⟩ = ⟨some (.other d)⟩ := by
  rw [List.forall_mem_cons] at hints
  rw [List.foldl_cons, absorb_of_some seen hints.1]
  cases ints with
  | nil => exact ⟨c, rfl⟩
  | cons d ints => exact exists_other_of_foldl_absorb (.other c) hints.2

end EscapeSequence

theorem GraphicSet.designate_eq (g : GraphicSet) {slot : Fin 4} {n : UInt8}
    (h : n.toNat = slot) (charset : Charset) :
    g.designate n charset = { g with slots := g.slots.set slot charset } := by
  simp [designate, h, Vector.setIfInBounds, Vector.set, Array.setIfInBounds]

namespace EscapeSequence

section Effect

variable {σ κ : Type} [Screen σ]

/-- Without intermediates a final character does what it means. -/
theorem finish_eq (final : Char) (ctx : Context σ κ) :
    (finish final ctx).1 = (Meaning.ofFinal final).next ∧
      (finish final ctx).2.toHost = (Meaning.ofFinal final).on ctx.toHost := by
  unfold finish
  split
  -- In the last case the character is none of those that mean something.
  iterate 12 exact ⟨rfl, rfl⟩
  have hnothing : Meaning.ofFinal final = .nothing := by
    unfold Meaning.ofFinal
    split <;> first | rfl | exact absurd rfl ‹_›
  rw [hnothing]
  exact ⟨rfl, rfl⟩

/-- After the intermediate that names a slot a final character designates into it. -/
theorem toHost_finishWith_designate {slot : Fin 4} {n : UInt8} (hn : n.toNat = slot)
    (final : Char) (ctx : Context σ κ) :
    (finishWith (.designate n) final ctx).toHost =
      (Meaning.ofDesignation slot final).on ctx.toHost := by
  simp only [finishWith, Meaning.ofDesignation]
  split
  · simp only [Context.modifyGraphicSet, Store.modify, GraphicSet.designate_eq _ hn]
    rfl
  · rfl

/-- After a single intermediate a final character does what both of them mean. -/
theorem toHost_finishWith_ofChar (i final : Char) (ctx : Context σ κ) :
    (finishWith (.ofChar i) final ctx).toHost = (meaningOf [i] final).on ctx.toHost := by
  unfold Intermediate.ofChar
  split
  · rename_i slot hslot
    unfold slotOf? at hslot
    split at hslot <;> cases hslot <;> exact toHost_finishWith_designate rfl final ctx
  · rename_i hslot
    have hnothing : meaningOf [i] final = .nothing := by
      unfold meaningOf
      split <;> simp_all [slotOf?]
    rw [hnothing]
    rfl

omit [Screen σ] in
/-- With intermediates nothing is opened. -/
theorem next_meaningOf_cons (i : Char) (ints : List Char) (final : Char) :
    (meaningOf (i :: ints) final).next = .ready := by
  unfold meaningOf Meaning.ofDesignation
  repeat' split
  all_goals first | rfl | cases ‹i :: ints = []›

/-- A final character ends a sequence. -/
theorem process_of_isFinal (e : EscapeSequence) {final : Char} (hfinal : IsFinal final)
    (ctx : Context σ κ) :
    e.process final ctx = match e.intermediate with
      | none => ⟨(finish final ctx).1, initial, (finish final ctx).2⟩
      | some seen => ⟨.ready, initial, finishWith seen final ctx⟩ := by
  obtain ⟨hesc, hexecutable, hintermediate⟩ := hfinal
  have hbreak : ¬ (final = can ∨ final = sub) := by
    rintro (rfl | rfl) <;> cases hexecutable
  obtain ⟨_ | seen⟩ := e <;>
    simp only [process, hesc, hbreak, hexecutable, hintermediate, if_false, Bool.false_eq_true]

/-- A sequence ends at its final character and has the effect that it means. -/
theorem process_foldl_absorb {ints : List Char} (hints : ∀ c ∈ ints, isIntermediate c = true)
    {final : Char} (hfinal : IsFinal final) (ctx : Context σ κ) :
    let step := (ints.foldl absorb initial).process final ctx
    step.state = (meaningOf ints final).next ∧ step.part = initial ∧
      step.context.toHost = (meaningOf ints final).on ctx.toHost := by
  rw [process_of_isFinal _ hfinal]
  cases ints with
  | nil =>
    obtain ⟨hnext, hhost⟩ := finish_eq final ctx
    exact ⟨hnext, rfl, hhost⟩
  | cons i ints =>
    rw [next_meaningOf_cons]
    rw [List.forall_mem_cons] at hints
    rw [List.foldl_cons, absorb_initial hints.1]
    cases ints with
    | nil => exact ⟨rfl, rfl, toHost_finishWith_ofChar i final ctx⟩
    | cons j ints =>
      obtain ⟨d, hother⟩ := exists_other_of_foldl_absorb (.ofChar i) hints.2
      have hnothing : meaningOf (i :: j :: ints) final = .nothing := by simp [meaningOf]
      rw [hother, hnothing]
      exact ⟨rfl, rfl, rfl⟩

end Effect

end EscapeSequence

/-! ### Whole sequences -/

namespace Progress

variable {σ κ : Type} [Screen σ] [Clipboard κ] {x : Progress σ κ}

section Idle

variable (hidle : x.interpreter.Idle) {ints : List Char}
  (hints : ∀ c ∈ ints, isIntermediate c = true)
include hidle hints

/-- Intermediates have no effect. -/
theorem leadsTo_intermediates :
    x.LeadsTo (esc :: ints) (x.inEscape (ints.foldl EscapeSequence.absorb .initial)) := by
  have hnone : ints.filter isExecutable = [] := by
    rw [List.filter_eq_nil_iff]
    intro c hc
    simp [EscapeSequence.isExecutable_of_isIntermediate (hints c hc)]
  have hbody := leadsTo_escapeBody hidle (fun c hc => .inl (hints c hc) : ∀ c ∈ ints, _)
  rwa [hnone] at hbody

/-- The whole sequence does what it means. -/
theorem leadsTo_escapeMeaning {final : Char} (hfinal : EscapeSequence.IsFinal final) :
    x.LeadsTo (esc :: (ints ++ [final]))
      ⟨{ x.interpreter with state := (EscapeSequence.meaningOf ints final).next },
        { (EscapeSequence.meaningOf ints final).on x.context.toHost with
          events := x.context.events }⟩ := by
  have hbody := leadsTo_intermediates hidle hints
  have hended := leadsTo_tick hbody.textDone (by simp [inEscape]) final
  obtain ⟨hnext, hpart, hhost⟩ := EscapeSequence.process_foldl_absorb hints hfinal x.context
  refine (hbody.append hended).trans_same ⟨?_, hhost⟩
  rw [tick_inEscape, hnext, hpart.trans hidle.clear.escape.symm]

end Idle

end Progress

namespace Terminal

variable {σ κ : Type}

def afterEscape [Screen σ] (t : Terminal σ κ) (meaning : EscapeSequence.Meaning) :
    Terminal σ κ :=
  { t with interpreter.state := meaning.next, host := meaning.on t.host }

variable [Screen σ] [Clipboard κ] {t : Terminal σ κ}

/-- An escape sequence does what its intermediates and its final character mean, in whatever pieces
it is delivered. It takes effect at the final character, and what follows is interpreted from
there. -/
theorem Reachable.escape_meaning (h : t.Reachable) (hready : t.state = .ready) {ints : List Char}
    (hints : ∀ c ∈ ints, isIntermediate c = true) {final : Char}
    (hfinal : EscapeSequence.IsFinal final) :
    let meaning := EscapeSequence.meaningOf ints final
    (∀ {front : List Char} {pieces : List (List Char)}, front <+: ints →
      pieces.flatten = esc :: front →
        (t.writeAll pieces).state = .escape ∧ (t.writeAll pieces).host = t.host) ∧
    (∀ {pieces : List (List Char)}, pieces.flatten = esc :: (ints ++ [final]) →
      t.writeAll pieces = t.afterEscape meaning ∧ t.calls pieces = meaning.calls) ∧
    ∀ {front : List (List Char)} {mid : List Char} (s : List Char) (rest : List (List Char)),
      front.flatten ++ mid = esc :: (ints ++ [final]) →
        t.writeAll (front ++ (mid ++ s) :: rest) =
          (t.afterEscape meaning).writeAll (s :: rest) := by
  intro meaning
  have hrest := h.atRest
  have hleads := Progress.leadsTo_escapeMeaning (x := t.progress) (hrest.idle hready) hints hfinal
  have hwrite : ∀ {pieces : List (List Char)}, pieces.flatten = esc :: (ints ++ [final]) →
      t.writeAll pieces = t.afterEscape meaning :=
    fun hpieces => hrest.writeAll_of_leadsTo (hpieces ▸ hleads)
  refine ⟨?_, ?_, ?_⟩
  · intro front pieces hfront hpieces
    have hfront' : ∀ c ∈ front, isIntermediate c = true := fun c hc => hints c (hfront.subset hc)
    have hbody := Progress.leadsTo_intermediates (x := t.progress) (hrest.idle hready) hfront'
    rw [hrest.writeAll_of_leadsTo (hpieces ▸ hbody)]
    exact ⟨rfl, rfl⟩
  · intro pieces hpieces
    refine ⟨hwrite hpieces, ?_⟩
    have hcalls := Progress.leadsTo_escapeMeaning (x := t.onTranscript.progress)
      (hrest.onTranscript.idle hready) hints hfinal
    have htranscript := hrest.onTranscript.writeAll_of_leadsTo (hpieces ▸ hcalls)
    exact (congrArg (·.screen.calls.toList) htranscript).trans (Transcript.toList_replay _ _)
  · intro front mid s rest hwhole
    have hpieces : [esc :: (ints ++ [final])].flatten = esc :: (ints ++ [final]) :=
      List.flatten_singleton
    rw [hrest.writeAll_continued (hpieces.trans hwhole.symm) (hpieces ▸ hleads), hwrite hpieces]

/-- A designation whose final character comes together with text, or alone. With one more
intermediate it is none. -/
theorem escape_meaning_designation :
    let t := onPage (.empty 80) .standard
    let whole := ["\x1b(".toList, ['0']]
    let longer := ["\x1b(".toList, "(0".toList]
    t.Reachable ∧ EscapeSequence.IsFinal '0' ∧
      EscapeSequence.meaningOf ['('] '0' = .designate 0 .decSpecialGraphics ∧
      t.writeAll ["\x1b(".toList, "0q".toList] =
        (t.afterEscape (.designate 0 .decSpecialGraphics)).writeAll [['q']] ∧
      t.calls whole = [] ∧
      (t.writeAll whole).store.get? .graphicSet =
        some ⟨#v[.decSpecialGraphics, .ascii, .ascii, .ascii], 0, none⟩ ∧
      t.writeAll ["\x1b(".toList, "(0q".toList] = t.writeAll [['q']] ∧
      t.calls longer = [] ∧ (t.writeAll longer).store.get? .graphicSet = none := by
  intro t whole longer
  have hreachable : t.Reachable := .onScreen _ _ _
  have hfinal : EscapeSequence.IsFinal '0' := by decide
  have hone : ∀ c ∈ ['('], isIntermediate c = true := List.all_eq_true.mp rfl
  have htwo : ∀ c ∈ ['(', '('], isIntermediate c = true := List.all_eq_true.mp rfl
  obtain ⟨-, hwhole, hdesignated⟩ := hreachable.escape_meaning rfl hone hfinal
  obtain ⟨-, hlonger, hnothing⟩ := hreachable.escape_meaning rfl htwo hfinal
  have hpieces : ["\x1b(".toList].flatten ++ ['0'] = esc :: (['('] ++ ['0']) := rfl
  have hpieces' : ["\x1b(".toList].flatten ++ ['(', '0'] = esc :: (['(', '('] ++ ['0']) := rfl
  have hflat : whole.flatten = esc :: (['('] ++ ['0']) := rfl
  have hflat' : longer.flatten = esc :: (['(', '('] ++ ['0']) := rfl
  obtain ⟨hwrite, hcalls⟩ := hwhole hflat
  obtain ⟨hwrite', hcalls'⟩ := hlonger hflat'
  refine ⟨hreachable, hfinal, by decide, hdesignated ['q'] [] hpieces, hcalls, ?_,
    hnothing ['q'] [] hpieces', hcalls', ?_⟩
  · rw [hwrite]
    rfl
  · rw [hwrite']
    rfl

end Terminal

end ControlStream
