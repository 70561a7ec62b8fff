import ControlStream.Proofs.ColorHistory
import ControlStream.Proofs.GraphicHistory
import ControlStream.Proofs.TextRuns

/-!
# What a stream does to the character sets

A character of a stream does one thing to the character sets, or nothing. It is printed, and sent
through the character set in use, or it is a locking shift that is executed, or it ends a sequence
that designates a character set, asks for a single shift or is a full reset. Which of these it is
only depends on what is being read of the stream.

## Main definitions

* `GraphicStep`: what a character of a stream does to the character sets.
* `Reading`, `Reading.step?`: what is being read of a stream, and what the next character does.
* `Reading.steps`: what a stream does.
* `graphicChangesOf`: the changes that a stream has made since the last full reset.

## Main statements

* `GraphicStep.onAll_history`: the changes since the last full reset are all that matters.
* `Context.graphicSet_control`, `Context.graphicSet_escape`: the step of a character in a sequence.
* `Host.graphicSet_command`: commands have nothing to do with the character sets.
-/

namespace ControlStream

open ControlChar

/-! ### Steps -/

inductive GraphicStep
  | apply (change : GraphicChange)
  /-- A character is sent through the character set in use. -/
  | print (c : Char)
  /-- A full reset brings back the initial character sets. -/
  | reset
  deriving DecidableEq, Repr

namespace GraphicStep

def on : GraphicStep → GraphicSet → GraphicSet
  | apply change, g => change.on g
  | print _, g => g.afterOne
  | reset, _ => .initial

def shown : GraphicStep → GraphicSet → List Char
  | print c, g => [g.current.translate c]
  | apply _, _ | reset, _ => []

def onAll (steps : List GraphicStep) (g : GraphicSet) : GraphicSet :=
  steps.foldl (fun g step => step.on g) g

def shownAll : List GraphicStep → GraphicSet → List Char
  | [], _ => []
  | step :: steps, g => step.shown g ++ shownAll steps (step.on g)

/-- The changes after one more step. A printed character is one that was sent through. -/
def record (changes : List GraphicChange) : GraphicStep → List GraphicChange
  | apply change => changes ++ [change]
  | print _ => changes ++ [.used]
  | reset => []

/-- The changes that steps have made since the last full reset. -/
def history (steps : List GraphicStep) : List GraphicChange := steps.foldl record []

theorem onAll_append (steps more : List GraphicStep) (g : GraphicSet) :
    onAll (steps ++ more) g = onAll more (onAll steps g) :=
  List.foldl_append

theorem shownAll_append (steps more : List GraphicStep) (g : GraphicSet) :
    shownAll (steps ++ more) g = shownAll steps g ++ shownAll more (onAll steps g) := by
  induction steps generalizing g with
  | nil => rfl
  | cons step steps ih =>
    rw [List.cons_append, shownAll, shownAll, ih, List.append_assoc]
    rfl

/-- The changes since the last full reset are all that is left of the steps. -/
theorem onAll_history (steps : List GraphicStep) :
    onAll steps .initial = GraphicChange.onAll (history steps) .initial := by
  induction steps using List.reverseRecOn with
  | nil => rfl
  | append_singleton steps step ih =>
    have hrecord : history (steps ++ [step]) = record (history steps) step := List.foldl_append
    rw [onAll_append, ih, hrecord]
    cases step with
    | apply change => exact (GraphicChange.onAll_concat _ _ _).symm
    | print c => exact (GraphicChange.onAll_concat _ .used _).symm
    | reset => rfl

/-- What does not print shows nothing. -/
theorem shownAll_of_ne_print {step? : Option GraphicStep} (h : ∀ c, step? ≠ some (.print c))
    (g : GraphicSet) : shownAll step?.toList g = [] := by
  rcases step? with _ | (_ | c | _)
  · rfl
  · rfl
  · exact absurd rfl (h c)
  · rfl

def shift? (c : Char) : Option GraphicStep :=
  if c = so then some (.apply .shiftOut) else if c = si then some (.apply .shiftIn) else none

theorem shift?_ne_print (c d : Char) : shift? c ≠ some (.print d) := by
  unfold shift?
  split_ifs <;> simp

theorem onAll_shift? (c : Char) (g : GraphicSet) :
    onAll (shift? c).toList g = g.afterControl c := by
  unfold shift? GraphicSet.afterControl
  split_ifs <;> rfl

end GraphicStep

open GraphicStep (shift? onAll shownAll)

/-! ### Steps of escape sequences -/

namespace EscapeSequence

def finalStep? : Char → Option GraphicStep
  | 'N' => some (.apply (.single 2))
  | 'O' => some (.apply (.single 3))
  | 'c' => some .reset
  | _ => none

def step? (e : EscapeSequence) (c : Char) : Option GraphicStep :=
  match e.role c with
  | .executed => shift? c
  | .final => finalStep? c
  | .finalAfter (.designate slot) =>
    if isGraphicFinal c then some (.apply (.designate slot (.ofDesignation c))) else none
  | .introducer | .canceller | .intermediate _ | .finalAfter (.other _) => none

def next (e : EscapeSequence) (c : Char) : EscapeSequence :=
  match e.role c with
  | .executed => e
  | .intermediate seen => ⟨some seen⟩
  | .introducer | .canceller | .final | .finalAfter _ => initial

theorem step?_ne_print (e : EscapeSequence) (c d : Char) : e.step? c ≠ some (.print d) := by
  unfold step? finalStep?
  repeat' split
  all_goals first | exact GraphicStep.shift?_ne_print c d | simp

theorem part_process {σ κ : Type} [Screen σ] (e : EscapeSequence) (c : Char) (ctx : Context σ κ) :
    (e.process c ctx).part = e.next c := by
  rw [process_eq_step, next]
  cases e.role c <;> rfl

end EscapeSequence

/-! ### What is being read -/

/-- What is being read of a stream, as far as it decides what becomes of the character sets. -/
structure Reading where
  framing : Framing
  escape : EscapeSequence
  deriving DecidableEq, Repr

namespace Reading

def ground : Reading := ⟨.ground, .initial⟩

/-- What is being read after a character. The character after ESC in a string may go on with an
escape sequence. -/
def next (r : Reading) (c : Char) : Reading where
  framing := r.framing.next c
  escape :=
    match r.framing with
    | .escape _ => r.escape.next c
    | .string _ true => EscapeSequence.initial.next c
    | .ground | .control | .string _ false => .initial

def step? (r : Reading) (c : Char) : Option GraphicStep :=
  match r.framing with
  | .ground => if Opening.ofChar c = .text then some (.print c) else shift? c
  | .escape _ => r.escape.step? c
  | .control => shift? c
  | .string _ true => EscapeSequence.initial.step? c
  | .string _ false => none

/-- Only where nothing is being read, a character is printed. -/
theorem step?_ne_print {r : Reading} (hground : r.framing ≠ .ground) (c d : Char) :
    r.step? c ≠ some (.print d) := by
  unfold step?
  split
  · exact absurd ‹_› hground
  · exact r.escape.step?_ne_print c d
  · exact GraphicStep.shift?_ne_print c d
  · exact EscapeSequence.initial.step?_ne_print c d
  · simp

def after (r : Reading) (s : List Char) : Reading := s.foldl next r

def steps : Reading → List Char → List GraphicStep
  | _, [] => []
  | r, c :: s => (r.step? c).toList ++ (r.next c).steps s

theorem after_append (r : Reading) (s t : List Char) : r.after (s ++ t) = (r.after s).after t :=
  List.foldl_append

theorem steps_append (r : Reading) (s t : List Char) :
    r.steps (s ++ t) = r.steps s ++ (r.after s).steps t := by
  induction s generalizing r with
  | nil => rfl
  | cons c s ih =>
    rw [List.cons_append, steps, steps, ih, List.append_assoc]
    rfl

end Reading

/-- The changes of the character sets that a stream has made since the last full reset. -/
def graphicChangesOf (s : List Char) : List GraphicChange :=
  GraphicStep.history (Reading.ground.steps s)

/-! ### The character sets of a host -/

def Host.graphicSet {σ κ : Type} (a : Host σ κ) : GraphicSet := a.store.getD .graphicSet .initial

theorem Store.graphicSet_fullReset (s : Store) :
    s.fullReset.getD .graphicSet .initial = .initial := by
  rw [getD, get?_fullReset s (by decide), get?_remove_of_ne _ (by decide), get?_remove_self]
  rfl

namespace Context

variable {σ κ : Type} [Screen σ] (ctx : Context σ κ)

omit [Screen σ] in
theorem graphicSet_modify (f : GraphicSet → GraphicSet) :
    (ctx.modifyGraphicSet f).toHost.graphicSet = f ctx.toHost.graphicSet :=
  Store.getD_set_self _ _ _ _

theorem graphicSet_executeControl (c : Char) :
    (ctx.executeControl c).toHost.graphicSet = onAll (shift? c).toList ctx.toHost.graphicSet := by
  rw [GraphicStep.onAll_shift?]
  unfold executeControl
  split
  · rw [GraphicSet.afterControl_of_isScreenControl ‹_›]
    rfl
  · unfold GraphicSet.afterControl
    split_ifs
    · exact ctx.graphicSet_modify _
    · exact ctx.graphicSet_modify _
    · rfl

theorem graphicSet_finishControl (s : ControlSequence) (c : Char) :
    (s.finish c ctx).toHost.graphicSet = ctx.toHost.graphicSet := by
  simp only [ControlSequence.finish]
  split
  · refine ctx.foldl_keeps (·.toHost.graphicSet) (fun ctx mode => ?_) _
    unfold ControlSequence.setMode
    split
    · exact Store.getD_set_of_ne _ _ (by decide) _
    · rfl
  · split
    · refine ctx.foldl_keeps (·.toHost.graphicSet) (fun ctx mode => ?_) _
      unfold ControlSequence.setPrivateMode
      split
      · exact Store.getD_set_of_ne _ _ (by decide) _
      · rfl
    · rfl

/-- Of the characters of a control sequence only those that are executed may shift. -/
theorem graphicSet_control (s : ControlSequence) (c : Char) :
    (s.process c ctx).context.toHost.graphicSet =
      onAll (shift? c).toList ctx.toHost.graphicSet := by
  have hrole : s.role c ≠ .executed → shift? c = none := by
    intro hother
    unfold shift?
    split_ifs with hso hsi
    · subst hso
      exact absurd rfl hother
    · subst hsi
      exact absurd rfl hother
    · rfl
  rw [s.process_eq_step]
  cases hc : s.role c with
  | executed => exact ctx.graphicSet_executeControl c
  | introducer | canceller | filler | malformedFinal | overrun | accepted =>
    rw [hrole (by simp [hc])]
    rfl
  | final =>
    rw [hrole (by simp [hc])]
    exact ctx.graphicSet_finishControl s c

theorem graphicSet_finishEscape (c : Char) :
    (EscapeSequence.finish c ctx).2.toHost.graphicSet =
      onAll (EscapeSequence.finalStep? c).toList ctx.toHost.graphicSet := by
  by_cases hreset : c = 'c'
  · subst hreset
    exact Store.graphicSet_fullReset _
  by_cases hsecond : c = 'N'
  · subst hsecond
    exact ctx.graphicSet_modify _
  by_cases hthird : c = 'O'
  · subst hthird
    exact ctx.graphicSet_modify _
  have hnone : EscapeSequence.finalStep? c = none := by
    unfold EscapeSequence.finalStep?
    split <;> first | contradiction | rfl
  rw [hnone]
  unfold EscapeSequence.finish
  split
  all_goals first | contradiction | exact Store.getD_set_of_ne _ _ (by decide) _ | rfl

omit [Screen σ] in
theorem graphicSet_designate (slot : UInt8) (c : Char) :
    (EscapeSequence.finishWith (.designate slot) c ctx).toHost.graphicSet =
      if isGraphicFinal c then ctx.toHost.graphicSet.designate slot (.ofDesignation c)
      else ctx.toHost.graphicSet := by
  simp only [EscapeSequence.finishWith]
  split
  · exact graphicSet_modify _ _
  · rfl

/-- The final character of an escape sequence takes its step. -/
theorem graphicSet_escape (e : EscapeSequence) (c : Char) :
    (e.process c ctx).context.toHost.graphicSet =
      onAll (e.step? c).toList ctx.toHost.graphicSet := by
  rw [e.process_eq_step, EscapeSequence.step?]
  cases e.role c with
  | introducer | canceller | intermediate => rfl
  | executed => exact ctx.graphicSet_executeControl c
  | final => exact ctx.graphicSet_finishEscape c
  | finalAfter seen =>
    cases seen with
    | designate slot =>
      refine (ctx.graphicSet_designate slot c).trans ?_
      dsimp only
      split <;> rfl
    | other first => rfl

end Context

/-- No command has to do with the character sets. -/
theorem Host.graphicSet_command {σ κ : Type} [Clipboard κ] (a : Host σ κ) (payload : List Char) :
    (a.command payload).graphicSet = a.graphicSet := by
  unfold Host.command
  split
  · rfl
  · have hbeside := (a.executes_applyPayload payload).sameBesideCommands
    have hentry := hbeside.entries Key.graphicSet.name (by decide)
    simp only [graphicSet, Store.getD, Store.get?, hentry]

end ControlStream
