import ControlStream.Proofs.ControlSequences
import ControlStream.Proofs.GraphicHistory
import ControlStream.Proofs.Output

/-!
# How runs of text are written

Text that opens no sequence and no string consists of runs of printable characters with control
characters between them. Each run is sent through the designated character sets and written by one
call, or in insert mode by one call for each character. A NUL neither ends a run nor becomes part
of it. A control character after a run is passed on, shifts to another character set, or is dropped.

## Main definitions

* `textRuns`: the runs of a text, each with the control character that ends it.
* `GraphicSet.shownText`: a text with what is shown in place of its printable characters.
* `callsOfText`: the calls made for a text that is shown.
* `Progress.withWaiting`: characters wait to be written.
* `Progress.Shows`: calls were made, and nothing else has changed but the character sets and the
  text written last.

## Main statements

* `Progress.shows_run`: one run is written by one call, or character by character.
* `Progress.shows_plain`: so is every run of a text.
* `Terminal.Reachable.text_batched`: all that a text without sequences does.
-/

namespace ControlStream

open ControlChar

/-! ### Runs -/

def openers : List Char := [esc, dcs, sos, csi, osc, pm, apc]

theorem isControl_of_mem_openers {c : Char} (h : c ∈ openers) : isControl c = true := by
  simp only [openers, List.mem_cons, List.not_mem_nil, or_false] at h
  rcases h with rfl | rfl | rfl | rfl | rfl | rfl | rfl <;> rfl

/-- The runs of a text, which are as long as possible without a character that ends text, each with
the character that ends it. Only the last one has none. -/
def textRuns : List Char → List (List Char × Option Char)
  | [] => [([], none)]
  | c :: s =>
    if endsText c then ([], some c) :: textRuns s
    else (textRuns s).modifyHead fun run => (c :: run.1, run.2)

theorem textRuns_of_plain {s : List Char} (hs : ∀ c ∈ s, endsText c = false) :
    textRuns s = [(s, none)] := by
  induction s with
  | nil => rfl
  | cons c s ih =>
    rw [List.forall_mem_cons] at hs
    rw [textRuns, hs.1, ih hs.2]
    rfl

theorem textRuns_append_cons {run : List Char} (hrun : ∀ c ∈ run, endsText c = false) {ender : Char}
    (hender : endsText ender = true) (s : List Char) :
    textRuns (run ++ ender :: s) = (run, some ender) :: textRuns s := by
  induction run with
  | nil => simp [textRuns, hender]
  | cons c run ih =>
    rw [List.forall_mem_cons] at hrun
    rw [List.cons_append, textRuns, hrun.1, ih hrun.2]
    rfl

/-- What holds of single runs, and of a run with what follows it if it holds of that, holds of every
text. -/
@[elab_as_elim]
theorem textRuns_induction {motive : List Char → Prop} (s : List Char)
    (last : ∀ run, (∀ c ∈ run, endsText c = false) → motive run)
    (more : ∀ run ender s, (∀ c ∈ run, endsText c = false) → endsText ender = true → motive s →
      motive (run ++ ender :: s)) : motive s := by
  suffices hfront : ∀ run, (∀ c ∈ run, endsText c = false) → motive (run ++ s) from
    hfront [] nofun
  induction s with
  | nil =>
    intro run hrun
    rw [List.append_nil]
    exact last run hrun
  | cons c s ih =>
    intro run hrun
    by_cases hc : endsText c = true
    · exact more run c s hrun hc (ih [] nofun)
    · rw [← List.singleton_append, ← List.append_assoc]
      apply ih
      simpa [or_imp, forall_and, hc] using hrun

/-- The runs are what stands between the characters that end text. -/
theorem map_fst_textRuns (s : List Char) : (textRuns s).map (·.1) = s.splitOnP endsText := by
  induction s with
  | nil => rfl
  | cons c s ih =>
    rw [textRuns, List.splitOnP_cons_eq_if_modifyHead, ← ih]
    split
    · rfl
    · cases textRuns s <;> rfl

theorem filterMap_snd_textRuns (s : List Char) :
    (textRuns s).filterMap (·.2) = s.filter endsText := by
  induction s with
  | nil => rfl
  | cons c s ih =>
    rw [textRuns, List.filter_cons, ← ih]
    split
    · rfl
    · cases textRuns s <;> rfl

/-- The characters of a run that are shown: all but NUL. -/
def printed (run : List Char) : List Char := run.filter (· ≠ nul)

/-- Of printable characters all are shown. -/
theorem printed_of_printable {run : List Char} (hrun : ∀ c ∈ run, isControl c = false) :
    printed run = run := by
  apply List.filter_eq_self.mpr
  intro c hc
  have hnul : c ≠ nul := by
    rintro rfl
    cases hrun nul hc
  simpa using hnul

theorem printed_cons {c : Char} (hc : c ≠ nul) (run : List Char) :
    printed (c :: run) = c :: printed run :=
  List.filter_cons_of_pos (by simpa using hc)

/-! ### The character sets -/

namespace GraphicSet

/-- The characters shown for some characters, sent through the character sets one by one. -/
def translateAll (g : GraphicSet) : List Char → List Char
  | [] => []
  | c :: s => (g.translate c).1 :: (g.translate c).2.translateAll s

def afterAll (g : GraphicSet) : List Char → GraphicSet
  | [] => g
  | c :: s => (g.translate c).2.afterAll s

def afterControl (g : GraphicSet) (c : Char) : GraphicSet :=
  if c = so then g.shiftOut else if c = si then g.shiftIn else g

/-- Only the first character of a text can use up a single shift. -/
theorem afterAll_eq_afterOne (g : GraphicSet) (c : Char) (s : List Char) :
    g.afterAll (c :: s) = g.afterOne := by
  induction s generalizing g c with
  | nil => rfl
  | cons d s ih => exact ih g.afterOne d

theorem translateAll_ne_nil (g : GraphicSet) {s : List Char} (h : s ≠ []) :
    g.translateAll s ≠ [] := by
  cases s with
  | nil => exact absurd rfl h
  | cons c s => simp [translateAll]

end GraphicSet

/-! ### What is shown of a text -/

def GraphicChange.ofText? (c : Char) : Option GraphicChange :=
  if c = so then some shiftOut
  else if c = si then some shiftIn
  else if isControl c then none
  else some used

def textChanges (s : List Char) : List GraphicChange := s.filterMap GraphicChange.ofText?

theorem endsText_of_not_isControl {c : Char} (h : isControl c = false) : endsText c = false := by
  rw [endsText_eq, h, Bool.and_false]

theorem isControl_of_endsText {c : Char} (h : endsText c = true) : isControl c = true := by
  rw [endsText_eq, Bool.and_eq_true] at h
  exact h.2

namespace GraphicSet

open GraphicChange

/-- What is shown for a character of a text: a control character stays, and a printable one is sent
through the character set that what stands before it leaves in use. -/
def shownChar (g : GraphicSet) (before : List Char) (c : Char) : Char :=
  if isControl c then c else (g.charsetAfter (textChanges before)).translate c

/-- A text with what is shown in place of its printable characters. -/
def shownText (g : GraphicSet) (s : List Char) : List Char :=
  s.mapIdx fun i => g.shownChar (s.take i)

variable {g : GraphicSet} {c : Char} {s run : List Char}

theorem onAll_textChanges_append (g : GraphicSet) (s t : List Char) :
    onAll (textChanges (s ++ t)) g = onAll (textChanges t) (onAll (textChanges s) g) := by
  rw [textChanges, List.filterMap_append]
  exact onAll_append _ _ g

theorem shownChar_append (g : GraphicSet) (s t : List Char) (c : Char) :
    g.shownChar (s ++ t) c = (onAll (textChanges s) g).shownChar t c := by
  rw [shownChar, shownChar, ← current_onAll, ← current_onAll, onAll_textChanges_append]

theorem shownText_append (g : GraphicSet) (s t : List Char) :
    g.shownText (s ++ t) = g.shownText s ++ (onAll (textChanges s) g).shownText t := by
  have htake : ∀ i, (s ++ t).take (i + s.length) = s ++ t.take i := by
    intro i
    rw [Nat.add_comm, List.take_length_add_append]
  rw [shownText, List.mapIdx_append]
  refine congrArg₂ (· ++ ·) (List.mapIdx_eq_mapIdx_iff.mpr fun i hi => ?_) ?_
  · rw [List.take_append_of_le_length (Nat.le_of_lt hi)]
  · simp only [htake]
    exact congrArg (List.mapIdx · t) (funext fun i => funext fun c => g.shownChar_append s _ c)

theorem shownText_cons (g : GraphicSet) (c : Char) (s : List Char) :
    g.shownText (c :: s) =
      (if isControl c then c else g.current.translate c) ::
        (onAll (textChanges [c]) g).shownText s := by
  have hfirst : g.shownText [c] = [if isControl c then c else g.current.translate c] :=
    congrArg (fun charset : Charset => [if isControl c then c else charset.translate c])
      (g.current_onAll []).symm
  rw [← List.singleton_append, shownText_append, hfirst, List.singleton_append]

/-- Control characters stay where they are, and nothing else becomes one. -/
theorem endsText_shown (charset : Charset) (c : Char) :
    endsText (if isControl c then c else charset.translate c) = endsText c := by
  cases hc : isControl c with
  | true => rfl
  | false =>
    rw [if_neg (by simp), endsText_of_not_isControl hc,
      endsText_of_not_isControl (charset.isControl_translate hc)]

theorem filter_endsText_shownText (g : GraphicSet) (s : List Char) :
    (g.shownText s).filter endsText = s.filter endsText := by
  induction s generalizing g with
  | nil => rfl
  | cons c s ih =>
    rw [shownText_cons, List.filter_cons, List.filter_cons, endsText_shown, ih]
    split
    · rename_i hends
      rw [if_pos (isControl_of_endsText hends)]
    · rfl

theorem onAll_textChanges_ender (g : GraphicSet) (hends : endsText c = true) :
    onAll (textChanges [c]) g = g.afterControl c := by
  simp only [textChanges, List.filterMap_cons, List.filterMap_nil, ofText?, afterControl,
    isControl_of_endsText hends, if_true]
  split_ifs <;> rfl

/-- In a run there are only printable characters and NUL, which has no effect. -/
theorem onAll_textChanges_of_not_endsText (g : GraphicSet) (hc : endsText c = false) :
    c = nul ∧ onAll (textChanges [c]) g = g ∨
      (c ≠ nul ∧ isControl c = false) ∧ onAll (textChanges [c]) g = g.afterOne := by
  rcases Opening.ofChar_of_not_endsText hc with rfl | ⟨hnul, htext⟩
  · exact .inl ⟨rfl, rfl⟩
  · have hprintable := Opening.isControl_of_ofChar htext
    have hne : ∀ d : Char, isControl d = true → c ≠ d := by
      rintro d hd rfl
      rw [hprintable] at hd
      cases hd
    have hchange : textChanges [c] = [.used] := by
      simp [textChanges, ofText?, hne so rfl, hne si rfl, hprintable]
    rw [hchange]
    exact .inr ⟨⟨hnul, hprintable⟩, rfl⟩

section Run

variable (hrun : ∀ c ∈ run, endsText c = false)
include hrun

theorem onAll_textChanges_run (g : GraphicSet) :
    onAll (textChanges run) g = g.afterAll (printed run) := by
  induction run generalizing g with
  | nil => rfl
  | cons c run ih =>
    rw [List.forall_mem_cons] at hrun
    rw [← List.singleton_append, onAll_textChanges_append, List.singleton_append]
    rcases g.onAll_textChanges_of_not_endsText hrun.1 with ⟨rfl, hsame⟩ | ⟨⟨hnul, -⟩, hused⟩
    · rw [hsame]
      exact ih hrun.2 g
    · rw [hused, printed_cons hnul]
      exact ih hrun.2 g.afterOne

theorem printed_shownText (g : GraphicSet) :
    printed (g.shownText run) = g.translateAll (printed run) := by
  induction run generalizing g with
  | nil => rfl
  | cons c run ih =>
    rw [List.forall_mem_cons] at hrun
    rw [shownText_cons]
    rcases g.onAll_textChanges_of_not_endsText hrun.1 with
      ⟨rfl, hsame⟩ | ⟨⟨hnul, hprintable⟩, hused⟩
    · rw [hsame]
      exact ih hrun.2 g
    · have hshown : g.current.translate c ≠ nul := by
        intro heq
        have hcontrol := g.current.isControl_translate hprintable
        rw [heq] at hcontrol
        cases hcontrol
      rw [if_neg (by simp [hprintable]), hused, printed_cons hshown, printed_cons hnul, ih hrun.2]
      rfl

theorem endsText_of_mem_shownText (g : GraphicSet) :
    ∀ c ∈ g.shownText run, endsText c = false := by
  have hnone : (g.shownText run).filter endsText = [] := by
    rw [filter_endsText_shownText]
    exact List.filter_eq_nil_iff.mpr fun c hc => by simp [hrun c hc]
  intro c hc
  simpa using List.filter_eq_nil_iff.mp hnone c hc

end Run

end GraphicSet

/-! ### The calls for a run -/

/-- The calls that write printable text: one, or in insert mode one for each character. -/
def writesOf (inserting : Bool) (shown : List Char) : List Call :=
  if inserting then shown.map fun c => .write (.singleton c) else [.write (.ofList shown)]

/-- The calls that write what is shown of a run. There are none if nothing is. -/
def textCalls (inserting : Bool) (shown : List Char) : List Call :=
  if shown = [] then [] else writesOf inserting shown

/-- In insert mode the first character is written by itself. -/
theorem textCalls_true_cons (c : Char) (shown : List Char) :
    textCalls true (c :: shown) = [.write (.singleton c)] ++ textCalls true shown := by
  cases shown <;> rfl

/-- The call for a control character, if it is passed on to the screen. -/
def controlCalls (c : Char) : List Call := if Context.isScreenControl c then [.control c] else []

/-- The calls for a run that is shown and the control character that ends it. -/
def callsOfRun (inserting : Bool) (run : List Char × Option Char) : List Call :=
  textCalls inserting (printed run.1) ++ run.2.elim [] controlCalls

def callsOfText (inserting : Bool) (s : List Char) : List Call :=
  (textRuns s).flatMap (callsOfRun inserting)

section CallsOfText

variable (inserting : Bool) (set : GraphicSet) {run : List Char}
  (hrun : ∀ c ∈ run, endsText c = false)
include hrun

theorem callsOfText_run :
    callsOfText inserting (set.shownText run) =
      textCalls inserting (set.translateAll (printed run)) := by
  rw [callsOfText, textRuns_of_plain (GraphicSet.endsText_of_mem_shownText hrun set)]
  simp [callsOfRun, GraphicSet.printed_shownText hrun set]

theorem callsOfText_append_cons {ender : Char} (hends : endsText ender = true) (s : List Char) :
    callsOfText inserting (set.shownText (run ++ ender :: s)) =
      textCalls inserting (set.translateAll (printed run)) ++ controlCalls ender ++
        callsOfText inserting (((set.afterAll (printed run)).afterControl ender).shownText s) := by
  rw [GraphicSet.shownText_append, GraphicSet.shownText_cons, if_pos (isControl_of_endsText hends),
    GraphicSet.onAll_textChanges_run hrun, GraphicSet.onAll_textChanges_ender _ hends, callsOfText,
    textRuns_append_cons (GraphicSet.endsText_of_mem_shownText hrun set) hends, List.flatMap_cons,
    callsOfRun, GraphicSet.printed_shownText hrun set]
  rfl

end CallsOfText

def lastWritten? (calls : List Call) : Option String :=
  (calls.filterMap fun | .write text => some text | .control _ | .insert _ => none).getLast?

theorem lastWritten?_append (calls more : List Call) :
    lastWritten? (calls ++ more) = (lastWritten? more).or (lastWritten? calls) := by
  rw [lastWritten?, List.filterMap_append, List.getLast?_append]
  rfl

/-- A control character that the screen executes does not shift. -/
theorem GraphicSet.afterControl_of_isScreenControl {c : Char} (h : Context.isScreenControl c = true)
    (set : GraphicSet) : set.afterControl c = set := by
  simp only [Context.isScreenControl, List.contains_iff_mem, List.mem_cons, List.not_mem_nil,
    or_false] at h
  rcases h with rfl | rfl | rfl | rfl | rfl | rfl | rfl <;> rfl

/-- Only executable characters have an effect between runs. -/
theorem dropped_of_not_isExecutable {c : Char} (h : ¬ isExecutable c = true) (set : GraphicSet) :
    controlCalls c = [] ∧ set.afterControl c = set := by
  constructor
  · rw [controlCalls, if_neg]
    intro hc
    simp only [Context.isScreenControl, List.contains_iff_mem, List.mem_cons, List.not_mem_nil,
      or_false] at hc
    rcases hc with rfl | rfl | rfl | rfl | rfl | rfl | rfl <;> exact h rfl
  · have hne : ∀ d : Char, isExecutable d = true → c ≠ d := by
      rintro d hd rfl
      exact h hd
    rw [GraphicSet.afterControl, if_neg (hne so rfl), if_neg (hne si rfl)]

/-- The control characters that open nothing and are not executable are dropped. -/
theorem Opening.ofChar_of_dropped {c : Char} (hc : c ∉ openers) (hends : endsText c = true)
    (hexecutable : ¬ isExecutable c = true) : ofChar c = .del ∨ ofChar c = .ignored := by
  simp only [openers, List.mem_cons, List.not_mem_nil, or_false, not_or] at hc
  obtain ⟨hesc, hdcs, hsos, hcsi, hosc, hpm, hapc⟩ := hc
  have hskipped : c ∉ skippedOpeners := by simp [skippedOpeners, hdcs, hsos, hpm, hapc]
  rw [endsText_eq, Bool.and_eq_true, bne_iff_ne] at hends
  cases hopening : ofChar c with
  | text =>
    rw [isControl_of_ofChar hopening] at hends
    cases hends.2
  | del => exact .inl rfl
  | ignored => exact .inr rfl
  | escape | control | command | skipped | nul | execute =>
    simp [ofChar, hesc, hcsi, hosc, hskipped, hends.1, hexecutable] at hopening
    split_ifs at hopening

/-! ### What text does -/

/-- The names of the values that text without sequences may change. -/
def SetByText (name : String) : Prop := name = Key.graphicSet.name ∨ name = Key.written.name

namespace Progress

variable {σ κ : Type} [Screen σ] {x y z : Progress σ κ}

/-- From `x` on, calls were made that write text or pass control characters on, and `y` is what has
come of it: the designated character sets are `set`, the text written last is known, and all the
rest is as it was. -/
structure Shows (x : Progress σ κ) (calls : List Call) (set : GraphicSet) (y : Progress σ κ) :
    Prop where
  interpreter : y.interpreter = x.interpreter
  screen : y.context.screen = replay calls x.context.screen
  graphicSet : y.context.store.getD .graphicSet .initial = set
  written : y.context.store.get? .written =
    (lastWritten? calls).or (x.context.store.get? .written)
  store : y.context.store.AgreeExcept SetByText x.context.store
  clipboard : y.context.clipboard = x.context.clipboard
  replies : y.context.replies = x.context.replies
  settings : y.context.settings = x.context.settings

namespace Shows

variable {calls more : List Call} {set last : GraphicSet}

theorem trans (h : x.Shows calls set y) (h' : y.Shows more last z) :
    x.Shows (calls ++ more) last z where
  interpreter := h'.interpreter.trans h.interpreter
  screen := by rw [h'.screen, h.screen, replay_append]
  graphicSet := h'.graphicSet
  written := by rw [h'.written, h.written, lastWritten?_append, Option.or_assoc]
  store := h'.store.trans h.store
  clipboard := h'.clipboard.trans h.clipboard
  replies := h'.replies.trans h.replies
  settings := h'.settings.trans h.settings

theorem insertMode_eq (h : x.Shows calls set y) :
    y.context.store.getD .insertMode false = x.context.store.getD .insertMode false :=
  h.store.getD_eq (by simp [SetByText, Key.insertMode, Key.graphicSet, Key.written]) false

end Shows

/-- Nothing happens that a screen or a store would show. -/
theorem shows_nothing (h : y.interpreter = x.interpreter)
    (hhost : y.context.toHost = x.context.toHost) :
    x.Shows [] (x.context.store.getD .graphicSet .initial) y := by
  obtain ⟨i, ctx⟩ := y
  obtain rfl : i = x.interpreter := h
  obtain ⟨host, events⟩ := ctx
  obtain rfl : host = x.context.toHost := hhost
  exact ⟨rfl, rfl, rfl, rfl, .refl _ _, rfl, rfl, rfl⟩

/-- The designated character sets are changed. -/
theorem shows_shift (x : Progress σ κ) (f : GraphicSet → GraphicSet) :
    x.Shows [] (f (x.context.store.getD .graphicSet .initial))
      ⟨x.interpreter, x.context.modifyGraphicSet f⟩ where
  interpreter := rfl
  screen := rfl
  graphicSet := Store.getD_set_self _ _ _ _
  written := Store.get?_set_of_ne _ _ (by decide)
  store := Store.AgreeExcept.set_of_ignored _ (.inl rfl) _
  clipboard := rfl
  replies := rfl
  settings := rfl

/-- A text is written, after its characters were sent through the character sets. -/
theorem shows_write (x : Progress σ κ) (text : String) (set : GraphicSet) :
    x.Shows [.write text] set ⟨x.interpreter,
      { x.context with
        screen := Screen.write x.context.screen text
        store := (x.context.store.set .graphicSet set).set .written text }⟩ where
  interpreter := rfl
  screen := rfl
  graphicSet := by
    rw [Store.getD_set_of_ne _ _ (by decide), Store.getD_set_self]
  written := Store.get?_set_self _ _ _
  store := (Store.AgreeExcept.set_of_ignored _ (.inr rfl) _).trans
    (Store.AgreeExcept.set_of_ignored _ (.inl rfl) _)
  clipboard := rfl
  replies := rfl
  settings := rfl

/-! ### Printable characters -/

/-- Sending a character through the character sets has no effect on the insert mode. -/
theorem insertMode_set_graphicSet (s : Store) (g : GraphicSet) :
    (s.set .graphicSet g).getD .insertMode false = s.getD .insertMode false :=
  s.getD_set_of_ne g (by decide) false

/-- In insert mode a character does not wait. -/
theorem addText_of_inserting (hon : x.context.store.getD .insertMode false = true) (c : Char) :
    x.addText c = (x.addText c).settle := by
  have hadded : (x.interpreter.textRun.add c x.context).2.store.getD .insertMode false = true :=
    (insertMode_set_graphicSet _ _).trans hon
  simp only [addText, hadded, if_true]
  exact (settle_settle _).symm

/-- Characters are sent through the character sets and wait behind those that wait already. -/
def withWaiting (x : Progress σ κ) (s : List Char) : Progress σ κ :=
  let set := x.context.store.getD Key.graphicSet .initial
  ⟨{ x.interpreter with
      textRun := ⟨x.interpreter.textRun.pending ++ .ofList (set.translateAll s)⟩ },
    { x.context with
      store := if s = [] then x.context.store
        else x.context.store.set .graphicSet (set.afterAll s) }⟩

omit [Screen σ] in
theorem withWaiting_nil (x : Progress σ κ) : x.withWaiting [] = x := by
  simp [withWaiting, GraphicSet.translateAll]

omit [Screen σ] in
/-- Characters wait one after the other. -/
theorem withWaiting_cons (x : Progress σ κ) (c : Char) (s : List Char) :
    (x.withWaiting [c]).withWaiting s = x.withWaiting (c :: s) := by
  simp only [withWaiting, reduceCtorEq, if_false, Store.getD_set_self, Store.set_set]
  generalize x.context.store.getD Key.graphicSet .initial = set
  have hpending : x.interpreter.textRun.pending ++ .ofList (set.translateAll [c]) ++
      .ofList ((set.afterAll [c]).translateAll s) =
      x.interpreter.textRun.pending ++ .ofList (set.translateAll (c :: s)) := by
    apply String.toList_injective
    simp [GraphicSet.translateAll, GraphicSet.afterAll]
  rw [hpending]
  cases s <;> rfl

omit [Screen σ] in
theorem insertMode_withWaiting (x : Progress σ κ) (s : List Char) :
    (x.withWaiting s).context.store.getD .insertMode false =
      x.context.store.getD .insertMode false := by
  simp only [withWaiting]
  split
  · rfl
  · exact insertMode_set_graphicSet _ _

/-- Out of insert mode a character waits. -/
theorem addText_of_not_inserting (hoff : x.context.store.getD .insertMode false = false)
    (c : Char) : x.addText c = (x.withWaiting [c]).withState .text := by
  have hadded : (x.interpreter.textRun.add c x.context).2.store.getD .insertMode false = false :=
    (insertMode_set_graphicSet _ _).trans hoff
  have hpush : x.interpreter.textRun.pending.push
      ((x.context.store.getD Key.graphicSet .initial).current.translate c) =
      (x.withWaiting [c]).interpreter.textRun.pending := by
    apply String.toList_injective
    simp [withWaiting, GraphicSet.translateAll, GraphicSet.translate]
  simp only [addText, hadded, Bool.false_eq_true, if_false]
  exact congrArg (fun pending : String => (⟨{ x.interpreter with
    state := .text
    textRun := ⟨pending⟩ }, (x.withWaiting [c]).context⟩ : Progress σ κ)) hpush

variable [Clipboard κ]

/-- A character that does not end a run is interpreted as if nothing waited. -/
theorem tick_of_not_ending (hstate : x.interpreter.state = .ready ∨ x.interpreter.state = .text)
    {c : Char} (hc : endsText c = false) : x.tick c = x.begin c := by
  have hwait : x.settleBefore (some c) = x := if_neg (Bool.eq_false_iff.mp hc)
  rcases hstate with hstate | hstate <;> rw [tick, hstate, hwait]

/-- At the end of a run, what waits is written first. -/
theorem tick_of_ending (hstate : x.interpreter.state = .ready ∨ x.interpreter.state = .text)
    {c : Char} (hc : endsText c = true) : x.tick c = x.settle.begin c := by
  have hsettle : x.settleBefore (some c) = x.settle := if_pos hc
  rcases hstate with hstate | hstate <;> rw [tick, hstate, hsettle]

/-- Out of insert mode the characters of a run wait, but for the NUL among them. -/
theorem after_of_not_inserting
    (hstate : x.interpreter.state = .ready ∨ x.interpreter.state = .text)
    (hmode : x.context.store.getD .insertMode false = false) {run : List Char}
    (hrun : ∀ c ∈ run, endsText c = false) :
    ∃ state, (state = .ready ∨ state = .text) ∧
      x.after run = (x.withWaiting (printed run)).withState state := by
  induction run generalizing x with
  | nil =>
    refine ⟨x.interpreter.state, hstate, ?_⟩
    rw [printed, List.filter_nil, withWaiting_nil]
    rfl
  | cons c run ih =>
    rw [List.forall_mem_cons] at hrun
    obtain ⟨hc, hrun⟩ := hrun
    rw [after_cons, tick_of_not_ending hstate hc]
    rcases Opening.ofChar_of_not_endsText hc with rfl | ⟨hnul, htext⟩
    · exact ih (x := x.withState .ready) (.inl rfl) hmode hrun
    · have hwaits := (x.insertMode_withWaiting [c]).trans hmode
      rw [begin_of_text x htext, addText_of_not_inserting hmode, printed_cons hnul,
        ← x.withWaiting_cons c (printed run)]
      exact ih (x := (x.withWaiting [c]).withState .text) (.inr rfl) hwaits hrun

omit [Clipboard κ] in
/-- A control character that ends a run and opens nothing is passed on to the screen, shifts to
another character set, or is dropped. -/
theorem shows_control (hready : x.interpreter.state = .ready) {c : Char} (hc : c ∉ openers)
    (hends : endsText c = true) :
    x.Shows (controlCalls c) ((x.context.store.getD Key.graphicSet .initial).afterControl c)
      (x.begin c) := by
  by_cases hexecutable : isExecutable c = true
  · have hbegin : x.begin c = ⟨x.interpreter, x.context.executeControl c⟩ := by
      rw [begin, Opening.ofChar_of_isExecutable hexecutable, ← hready]
    rw [hbegin, controlCalls, Context.executeControl]
    split
    · rename_i hpassed
      rw [GraphicSet.afterControl_of_isScreenControl hpassed]
      exact ⟨rfl, rfl, rfl, rfl, .refl _ _, rfl, rfl, rfl⟩
    · rw [GraphicSet.afterControl]
      split_ifs
      · exact x.shows_shift _
      · exact x.shows_shift _
      · exact shows_nothing rfl rfl
  · obtain ⟨hcalls, hset⟩ := dropped_of_not_isExecutable hexecutable
      (x.context.store.getD Key.graphicSet .initial)
    rw [hcalls, hset]
    rcases Opening.ofChar_of_dropped hc hends hexecutable with hopening | hopening
    · simp only [begin, hopening, withState, ← hready]
      exact shows_nothing rfl rfl
    · simp only [begin, hopening, ← hready]
      exact shows_nothing rfl rfl

section Run

variable (hdone : x.interpreter.TextDone) (hready : x.interpreter.state = .ready)
include hdone hready

omit [Screen σ] [Clipboard κ] in
theorem interpreter_eq_of_ready :
    ({ x.interpreter with state := .ready, textRun := .empty } : Interpreter) = x.interpreter := by
  rw [← hready, ← hdone.textRun]

omit [Clipboard κ] in
/-- What waits is written, if anything does. -/
theorem shows_settle_withWaiting {state : Interpreter.State}
    (hstate : state = .ready ∨ state = .text) (s : List Char) :
    let set := x.context.store.getD Key.graphicSet .initial
    x.Shows (textCalls false (set.translateAll s)) (set.afterAll s)
      ((x.withWaiting s).withState state).settle := by
  intro set
  have hended : ((x.withWaiting s).withState state).settle =
      ((x.withWaiting s).withState .ready).settle := by
    rcases hstate with rfl | rfl <;> rfl
  rw [hended]
  by_cases hnone : s = []
  · have hnothing : (x.withWaiting []).withState .ready = x := by
      rw [withWaiting_nil, withState, ← hready]
    subst hnone
    rw [hnothing, settle_of_textDone hdone]
    exact shows_nothing rfl rfl
  · have hpending : x.interpreter.textRun.pending ++ .ofList (set.translateAll s) =
        .ofList (set.translateAll s) := by
      rw [hdone.textRun]
      exact String.empty_append
    have hshown := set.translateAll_ne_nil hnone
    have hcalls : textCalls false (set.translateAll s) = [.write (.ofList (set.translateAll s))] :=
      if_neg hshown
    have hwaits : (⟨.ofList (set.translateAll s)⟩ : TextRun) ≠ .empty := by
      intro hempty
      have hchars := congrArg (fun run : TextRun => run.pending.toList) hempty
      simp only [String.toList_ofList] at hchars
      exact hshown hchars
    have hshows := x.shows_write (.ofList (set.translateAll s)) (set.afterAll s)
    simp only [settle, withState, withWaiting, if_neg hnone]
    rw [hcalls, hpending, TextRun.flush_of_ne hwaits]
    exact ⟨interpreter_eq_of_ready hdone hready, hshows.screen, hshows.graphicSet, hshows.written,
      hshows.store, hshows.clipboard, hshows.replies, hshows.settings⟩

/-- Out of insert mode, a run is written when it ends, if anything of it is shown. -/
theorem shows_run_of_not_inserting (hmode : x.context.store.getD .insertMode false = false)
    {run : List Char} (hrun : ∀ c ∈ run, endsText c = false) :
    let set := x.context.store.getD Key.graphicSet .initial
    ((x.after run).interpreter.state = .ready ∨ (x.after run).interpreter.state = .text) ∧
      x.Shows (textCalls false (set.translateAll (printed run))) (set.afterAll (printed run))
        (x.after run).settle := by
  obtain ⟨state, hstate, hafter⟩ := after_of_not_inserting (.inl hready) hmode hrun
  rw [hafter]
  exact ⟨hstate, shows_settle_withWaiting hdone hready hstate (printed run)⟩

/-- In insert mode, a run is written character by character. -/
theorem shows_run_of_inserting (hmode : x.context.store.getD .insertMode false = true)
    {run : List Char} (hrun : ∀ c ∈ run, endsText c = false) :
    let set := x.context.store.getD Key.graphicSet .initial
    (x.after run).interpreter = x.interpreter ∧
      x.Shows (textCalls true (set.translateAll (printed run))) (set.afterAll (printed run))
        (x.after run) := by
  induction run generalizing x with
  | nil => exact ⟨rfl, shows_nothing rfl rfl⟩
  | cons c run ih =>
    intro set
    rw [List.forall_mem_cons] at hrun
    obtain ⟨hc, hrun⟩ := hrun
    rw [after_cons, tick_of_not_ending (.inl hready) hc]
    rcases Opening.ofChar_of_not_endsText hc with rfl | ⟨hnul, htext⟩
    · have hnothing : x.begin nul = x := by
        rw [begin_nul, withState, ← hready]
      rw [hnothing]
      exact ih hdone hready hmode hrun
    · have hfirst : x.Shows [.write (.singleton (set.current.translate c))] set.afterOne
          (x.begin c) := by
        rw [begin_of_text x htext, addText_of_inserting hmode, settle_addText, hdone.textRun,
          interpreter_eq_of_ready hdone hready]
        exact x.shows_write _ _
      have hnext := hfirst.interpreter
      obtain ⟨hsame, hrest⟩ :=
        ih (hnext ▸ hdone) (hnext ▸ hready) (hfirst.insertMode_eq.trans hmode) hrun
      rw [hfirst.graphicSet] at hrest
      rw [printed_cons hnul, GraphicSet.translateAll, textCalls_true_cons]
      exact ⟨hsame.trans hnext, hfirst.trans hrest⟩

/-- A run is written when it ends, if anything of it is shown, and in insert mode character by
character. -/
theorem shows_run {run : List Char} (hrun : ∀ c ∈ run, endsText c = false) :
    let set := x.context.store.getD Key.graphicSet .initial
    ((x.after run).interpreter.state = .ready ∨ (x.after run).interpreter.state = .text) ∧
      x.Shows (textCalls (x.context.store.getD .insertMode false) (set.translateAll (printed run)))
        (set.afterAll (printed run)) (x.after run).settle := by
  intro set
  cases hmode : x.context.store.getD Key.insertMode false with
  | false => exact shows_run_of_not_inserting hdone hready hmode hrun
  | true =>
    obtain ⟨hsame, hshows⟩ := shows_run_of_inserting hdone hready hmode hrun
    rw [settle_of_textDone (hsame ▸ hdone), hsame]
    exact ⟨.inl hready, hshows⟩

/-- Text that opens no sequence and no string is written run by run. -/
theorem shows_plain {s : List Char} (hs : ∀ c ∈ s, c ∉ openers) :
    let set := x.context.store.getD Key.graphicSet .initial
    x.Shows (callsOfText (x.context.store.getD .insertMode false) (set.shownText s))
      (GraphicChange.onAll (textChanges s) set) (x.after s).settle := by
  intro set
  -- The induction is on the runs: at the end of one, nothing waits any more.
  induction s using textRuns_induction generalizing x with
  | last run hrun =>
    obtain ⟨-, hshows⟩ := shows_run hdone hready hrun
    rw [callsOfText_run _ _ hrun, GraphicSet.onAll_textChanges_run hrun]
    exact hshows
  | more run ender s hrun hends ih =>
    obtain ⟨hstate, hshows⟩ := shows_run hdone hready hrun
    have hsettled : (x.after run).settle.interpreter.state = .ready := hshows.interpreter ▸ hready
    have hcontrol := shows_control hsettled (hs ender (by simp)) hends
    rw [hshows.graphicSet] at hcontrol
    have hfirst := hshows.trans hcontrol
    have hnext := hfirst.interpreter
    have hrest := ih (hnext ▸ hdone) (hnext ▸ hready) fun c hc => hs c (by simp [hc])
    rw [hfirst.insertMode_eq, hfirst.graphicSet] at hrest
    rw [after_append, after_cons, tick_of_ending hstate hends,
      callsOfText_append_cons _ _ hrun hends, ← List.singleton_append,
      GraphicSet.onAll_textChanges_append,
      GraphicSet.onAll_textChanges_run hrun, GraphicSet.onAll_textChanges_append,
      GraphicSet.onAll_textChanges_ender _ hends]
    exact hfirst.trans hrest

end Run

end Progress

/-! ### Deliveries -/

namespace Terminal

variable {σ κ : Type} [Clipboard κ] {t : Terminal σ κ} {s : List Char}

theorem AtRest.shows_plain [Screen σ] (h : t.AtRest) (hready : t.state = .ready)
    (hs : ∀ c ∈ s, c ∉ openers) :
    let set := t.store.getD Key.graphicSet .initial
    t.progress.Shows (callsOfText t.insertMode (set.shownText s))
      (GraphicChange.onAll (textChanges s) set) (t.write s).progress := by
  have hshows := Progress.shows_plain (x := t.progress) h.textDone hready hs
  rw [write_eq h]
  exact ⟨hshows.interpreter, hshows.screen, hshows.graphicSet, hshows.written, hshows.store,
    hshows.clipboard, hshows.replies, hshows.settings⟩

theorem AtRest.calls_plain (h : t.AtRest) (hready : t.state = .ready)
    (hs : ∀ c ∈ s, c ∉ openers) :
    t.calls [s] =
      callsOfText t.insertMode ((t.store.getD Key.graphicSet .initial).shownText s) := by
  have hcalls := congrArg (·.calls.toList) (h.onTranscript.shows_plain hready hs).screen
  exact hcalls.trans (Transcript.toList_replay _ _)

/-- Text that opens no sequence and no string, delivered in one piece with nothing in progress. What
is shown for a printable character is decided by the character sets there are and by what stands
before it, and the runs of what is shown are what stands between the control characters that end
text. Each run is written by one call, or in insert mode character by character, and what control
characters are passed on is passed on between the runs. In the end nothing is in progress, and
nothing has changed but the screen, the character sets and the text written last. -/
theorem Reachable.text_batched [Screen σ] (h : t.Reachable) (hready : t.state = .ready)
    (hs : ∀ c ∈ s, c ∉ openers) :
    let set := t.store.getD Key.graphicSet .initial
    let shown := set.shownText s
    let calls := (textRuns shown).flatMap (callsOfRun t.insertMode)
    (textRuns shown).map (·.1) = shown.splitOnP endsText ∧
      (textRuns shown).filterMap (·.2) = s.filter endsText ∧
      t.calls [s] = calls ∧
      t.progress.Shows calls (GraphicChange.onAll (textChanges s) set) (t.write s).progress ∧
      (t.write s).state = .ready ∧
      (t.write s).store.get? .written = (lastWritten? calls).or (t.store.get? .written) := by
  intro set shown calls
  have hshows := h.atRest.shows_plain hready hs
  have hstate : (t.write s).state = t.state := congrArg (·.state) hshows.interpreter
  have henders : (textRuns shown).filterMap (·.2) = s.filter endsText :=
    (filterMap_snd_textRuns shown).trans (set.filter_endsText_shownText s)
  exact ⟨map_fst_textRuns shown, henders, h.atRest.calls_plain hready hs, hshows,
    hstate.trans hready, hshows.written⟩

/-- A single shift that waits, both locking shifts, a NUL in a run and control characters between
the runs, with sets designated into G1 and G2, and the same in insert mode. -/
theorem text_batched_page :
    let t := (onPage (.empty 80) .standard).write "\x1b)0\x1b*A\x1bN".toList
    let u := (onPage (.empty 80) .standard).write "\x1b)0\x1b*A\x1b[4h\x1bN".toList
    let s := "##\x0eq\x00#q\x07\x0fq\x7f\r".toList
    t.Reachable ∧ t.state = .ready ∧ u.Reachable ∧ u.state = .ready ∧ (∀ c ∈ s, c ∉ openers) ∧
      t.calls [s] = [.write "£#", .write "─#─", .control bel, .write "q", .control cr] ∧
      (t.write s).store.get? .written = some "q" ∧
      u.calls [s] = [.write "£", .write "#", .write "─", .write "#", .write "─", .control bel,
        .write "q", .control cr] ∧
      (u.write s).store.get? .written = some "q" := by
  intro t u s
  have hstart : (onPage (.empty 80) .standard).Reachable := .onScreen _ _ _
  have ht : t.Reachable := hstart.write _
  have hu : u.Reachable := hstart.write _
  have hs : ∀ c ∈ s, c ∉ openers := by
    have hall : s.all (fun c => !openers.contains c) = true := rfl
    simpa using hall
  have htwrite : t = _ := write_eq hstart.atRest _
  have huwrite : u = _ := write_eq hstart.atRest _
  have htready : t.state = .ready := by
    rw [htwrite]
    rfl
  have huready : u.state = .ready := by
    rw [huwrite]
    rfl
  obtain ⟨-, -, htcalls, -, -, htwritten⟩ := ht.text_batched htready hs
  obtain ⟨-, -, hucalls, -, -, huwritten⟩ := hu.text_batched huready hs
  refine ⟨ht, htready, hu, huready, hs, ?_, ?_, ?_, ?_⟩
  · rw [htcalls, htwrite]
    decide +kernel
  · rw [htwritten, htwrite]
    decide +kernel
  · rw [hucalls, huwrite]
    decide +kernel
  · rw [huwritten, huwrite]
    decide +kernel

end Terminal

end ControlStream
