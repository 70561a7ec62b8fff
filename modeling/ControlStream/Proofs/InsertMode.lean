import ControlStream.Proofs.Commands
import ControlStream.Proofs.TextRuns

/-!
# The insert mode

Whether text is inserted is kept in two places: in the store, where it decides how runs of text are
divided among writes, and by the screen, where it decides what a write does to the text that is
there. Whatever is delivered, the two agree. So text is written character by character just as long
as the screen inserts it.

## Main definitions

* `lastInsert`: what the screen was told last about inserting.
* `CharByChar`: text was written by single characters while the screen inserted it.
* `Progress.InsertsSingly`: store, screen and the run of text that waits agree.
* `Terminal.Operation`, `Terminal.callsOf`: deliver a piece of text, or reset; the calls made.

## Main statements

* `Action.insertMode_on`: every action keeps store and screen in agreement.
* `Progress.InsertsSingly.tick`: so does every character, and it is written accordingly.
* `Terminal.AtRest.calls_printable`: how printable text is written.
* `Terminal.insertMode_eq_lastInsert`: store and screen agree after any deliveries and resets.
-/

namespace ControlStream

/-! ### What a screen was told last -/

/-- Whether a screen inserts text after a call, if it did so `before`. -/
def Call.insertsAfter (before : Bool) : Call → Bool
  | .insert enabled => enabled
  | .write _ | .control _ => before

/-- What the last call about the insert mode said; inserting is off if there was none. -/
def lastInsert (calls : List Call) : Bool := calls.foldl Call.insertsAfter false

@[simp] theorem lastInsert_append_singleton (calls : List Call) (call : Call) :
    lastInsert (calls ++ [call]) = call.insertsAfter (lastInsert calls) := by
  simp [lastInsert]

/-- While the screen inserted text, it was written by single characters. -/
def CharByChar (calls : List Call) : Prop :=
  ∀ before text after, calls = before ++ .write text :: after → lastInsert before = true →
    text.length = 1

theorem charByChar_nil : CharByChar [] := by
  intro before text after h
  simp at h

theorem CharByChar.append_singleton {calls : List Call} (h : CharByChar calls) {call : Call}
    (hcall : ∀ text, call = .write text → lastInsert calls = true → text.length = 1) :
    CharByChar (calls ++ [call]) := by
  intro before text after heq hinsert
  rcases List.eq_nil_or_concat after with rfl | ⟨rest, last, rfl⟩
  · obtain ⟨rfl, hlast⟩ := List.append_inj' heq rfl
    exact hcall text (List.singleton_inj.mp hlast) hinsert
  · have hfront : calls ++ [call] = (before ++ .write text :: rest) ++ [last] := by simpa using heq
    exact h before text rest (List.append_inj' hfront rfl).1 hinsert

/-- Calls other than writes change nothing about how text was written. -/
theorem CharByChar.append {calls more : List Call} (h : CharByChar calls)
    (hmore : ∀ text, Call.write text ∉ more) : CharByChar (calls ++ more) := by
  induction more generalizing calls with
  | nil => simpa using h
  | cons call more ih =>
    have hcall : CharByChar (calls ++ [call]) := by
      refine h.append_singleton ?_
      rintro text rfl
      exact absurd List.mem_cons_self (hmore text)
    have hrest := ih hcall fun text htext => hmore text (List.mem_cons_of_mem call htext)
    rwa [List.append_assoc] at hrest

namespace Page

@[simp] theorem inserting_put (p : Page) (c : Char) : (p.put c).inserting = p.inserting := by
  unfold put
  split
  · rfl
  · simp only [place, wrap]
    split <;> rfl

theorem inserting_putAll (p : Page) (s : List Char) : (p.putAll s).inserting = p.inserting := by
  induction s generalizing p with
  | nil => rfl
  | cons c s ih => exact (ih (p.put c)).trans (p.inserting_put c)

theorem inserting_on (p : Page) (call : Call) :
    (call.on p).inserting = call.insertsAfter p.inserting := by
  cases call with
  | write text =>
    have hlayout : (p.write text).layout.inserting = p.inserting := by
      rw [layout_write]
      exact inserting_putAll p.layout text.toList
    exact hlayout
  | control c =>
    change (p.control c).inserting = p.inserting
    unfold control
    repeat' split
    all_goals rfl
  | insert enabled => rfl

/-- A page inserts text as it was told last. -/
theorem inserting_replay (calls : List Call) (p : Page) :
    (replay calls p).inserting = calls.foldl Call.insertsAfter p.inserting := by
  induction calls generalizing p with
  | nil => rfl
  | cons call calls ih =>
    rw [List.foldl_cons, ← inserting_on]
    exact ih (call.on p)

end Page

/-! ### Store and screen agree -/

section Agreement

variable {κ : Type} [Clipboard κ]

theorem Store.insertMode_fullReset (s : Store) : s.fullReset.getD .insertMode false = false := by
  rw [getD, get?_fullReset s (by decide), get?_remove_self]
  rfl

/-- Every action keeps store and screen in agreement. -/
theorem Action.insertMode_on (action : Action) {a : Host Transcript κ}
    (h : a.store.getD .insertMode false = lastInsert a.screen.calls.toList) :
    (action.on a).store.getD .insertMode false = lastInsert (action.on a).screen.calls.toList := by
  cases action with
  | windowTitle | iconTitle | workdir | applicationKeypad | cursorVisible | graphic =>
    exact (a.store.getD_set_of_ne _ (by decide) false).trans h
  | color | answer | copy => exact h
  | insertMode enabled =>
    have hscreen := a.screen.toList_on (.insert enabled)
    refine (a.store.getD_set_self _ _ _).trans ?_
    exact ((congrArg lastInsert hscreen).trans (lastInsert_append_singleton _ _)).symm
  | write text =>
    have hscreen := a.screen.toList_on (.write text)
    refine ((a.store.getD_set_of_ne _ (by decide) false).trans h).trans ?_
    exact ((congrArg lastInsert hscreen).trans (lastInsert_append_singleton _ _)).symm
  | control c =>
    have hscreen := a.screen.toList_on (.control c)
    refine h.trans ?_
    exact ((congrArg lastInsert hscreen).trans (lastInsert_append_singleton _ _)).symm
  | fullReset =>
    have hscreen := a.screen.toList_on (.insert false)
    refine a.store.insertMode_fullReset.trans ?_
    exact ((congrArg lastInsert hscreen).trans (lastInsert_append_singleton _ _)).symm

end Agreement

/-! ### Nothing but runs of text is written -/

section WithoutWrites

variable {σ κ : Type} [Screen σ]

/-- Nothing was written to the screen: all that has happened to it are other calls. -/
def Context.WithoutWrites (a b : Context σ κ) : Prop :=
  ∃ calls : List Call, (∀ text, .write text ∉ calls) ∧ b.screen = replay calls a.screen

namespace Context

theorem WithoutWrites.of_screen_eq {a b : Context σ κ} (h : b.screen = a.screen) :
    a.WithoutWrites b := ⟨[], nofun, h⟩

theorem WithoutWrites.trans {a b c : Context σ κ} (h : a.WithoutWrites b)
    (h' : b.WithoutWrites c) : a.WithoutWrites c := by
  obtain ⟨calls, hcalls, hb⟩ := h
  obtain ⟨more, hmore, hc⟩ := h'
  refine ⟨calls ++ more, ?_, by rw [hc, hb, replay_append]⟩
  intro text htext
  rcases List.mem_append.mp htext with htext | htext
  · exact hcalls text htext
  · exact hmore text htext

theorem WithoutWrites.of_call {a b : Context σ κ} (call : Call) (hcall : ∀ text, call ≠ .write text)
    (h : b.screen = call.on a.screen) : a.WithoutWrites b := by
  refine ⟨[call], ?_, h⟩
  intro text htext
  exact hcall text (List.mem_singleton.mp htext).symm

variable (ctx : Context σ κ)

theorem withoutWrites_executeControl (c : Char) : ctx.WithoutWrites (ctx.executeControl c) := by
  unfold executeControl
  split
  · exact .of_call (.control c) (by simp) rfl
  · split
    · exact .of_screen_eq rfl
    · split <;> exact .of_screen_eq rfl

theorem withoutWrites_foldl {α : Type} {f : Context σ κ → α → Context σ κ}
    (hf : ∀ (ctx : Context σ κ) (x : α), ctx.WithoutWrites (f ctx x)) (l : List α) :
    ctx.WithoutWrites (l.foldl f ctx) := by
  induction l generalizing ctx with
  | nil => exact .of_screen_eq rfl
  | cons x l ih => exact (hf ctx x).trans (ih (f ctx x))

theorem withoutWrites_finishControl (s : ControlSequence) (c : Char) :
    ctx.WithoutWrites (s.finish c ctx) := by
  simp only [ControlSequence.finish]
  split
  · refine ctx.withoutWrites_foldl (fun ctx mode => ?_) _
    unfold ControlSequence.setMode
    split
    · exact .of_call (.insert (c == 'h')) (by simp) rfl
    · exact .of_screen_eq rfl
  · split
    · refine ctx.withoutWrites_foldl (fun ctx mode => ?_) _
      unfold ControlSequence.setPrivateMode
      split <;> exact .of_screen_eq rfl
    · exact .of_screen_eq rfl

theorem withoutWrites_control (s : ControlSequence) (c : Char) :
    ctx.WithoutWrites (s.process c ctx).context := by
  rw [s.process_eq_step]
  cases s.role c with
  | introducer | canceller | filler | malformedFinal | overrun | accepted =>
    exact .of_screen_eq rfl
  | executed => exact ctx.withoutWrites_executeControl c
  | final => exact ctx.withoutWrites_finishControl s c

theorem withoutWrites_escape (e : EscapeSequence) (c : Char) :
    ctx.WithoutWrites (e.process c ctx).context := by
  rw [e.process_eq_step]
  cases e.role c with
  | introducer | canceller | intermediate => exact .of_screen_eq rfl
  | executed => exact ctx.withoutWrites_executeControl c
  | final =>
    simp only [EscapeSequence.Role.step]
    unfold EscapeSequence.finish
    split <;> try exact .of_screen_eq rfl
    -- Only the full reset calls the screen.
    exact .of_call (.insert false) (by simp) rfl
  | finalAfter seen =>
    simp only [EscapeSequence.Role.step]
    unfold EscapeSequence.finishWith
    split
    · split <;> exact .of_screen_eq rfl
    · exact .of_screen_eq rfl

theorem withoutWrites_finishCommand [Clipboard κ] (s : CommandString) :
    ctx.WithoutWrites (s.finish ctx) := by
  unfold CommandString.finish
  split
  · exact .of_screen_eq rfl
  · exact .of_screen_eq (ctx.executes_applyPayload _).sameBesideCommands.screen

end Context

namespace Progress

variable (x : Progress σ κ)

theorem withoutWrites_afterString (interrupt : Option Char) :
    x.context.WithoutWrites (x.afterString interrupt).context := by
  cases interrupt with
  | none => exact .of_screen_eq rfl
  | some c => exact x.context.withoutWrites_escape _ c

/-- Inside a sequence or a string nothing is written. -/
theorem withoutWrites_tick [Clipboard κ] (hready : x.interpreter.state ≠ .ready)
    (htext : x.interpreter.state ≠ .text) (c : Char) :
    x.context.WithoutWrites (x.tick c).context := by
  unfold tick
  split
  · exact absurd ‹_› hready
  · exact absurd ‹_› htext
  · exact x.context.withoutWrites_escape _ c
  · exact x.context.withoutWrites_control _ c
  · simp only [tickCommand]
    split
    · exact (x.context.withoutWrites_finishCommand _).trans (withoutWrites_afterString ⟨_, _⟩ _)
    · exact .of_screen_eq rfl
  · simp only [tickSkipped]
    split
    · exact withoutWrites_afterString ⟨_, x.context.log _⟩ _
    · exact .of_screen_eq rfl

end Progress

end WithoutWrites

theorem CharByChar.of_withoutWrites {κ : Type} {a b : Context Transcript κ}
    (h : CharByChar a.screen.calls.toList) (hab : a.WithoutWrites b) :
    CharByChar b.screen.calls.toList := by
  obtain ⟨calls, hcalls, hscreen⟩ := hab
  rw [hscreen, Transcript.toList_replay]
  exact h.append hcalls

/-! ### How text is written -/

namespace Progress

variable {κ : Type}

/-- Store and screen agree on the insert mode, no run of text waits while text is inserted, and
text was written accordingly. -/
structure InsertsSingly (x : Progress Transcript κ) : Prop where
  agree : x.context.store.getD .insertMode false = lastInsert x.context.screen.calls.toList
  waits : x.context.store.getD .insertMode false = true → x.interpreter.textRun = .empty
  charByChar : CharByChar x.context.screen.calls.toList

namespace InsertsSingly

variable [Clipboard κ] {x : Progress Transcript κ}

/-- Whatever is done to the host, store and screen agree. -/
theorem agree_of_leads (h : x.InsertsSingly) {b : Host Transcript κ}
    (hb : x.context.toHost.Leads b) :
    b.store.getD .insertMode false = lastInsert b.screen.calls.toList :=
  hb.invariant
    (P := fun b => b.store.getD .insertMode false = lastInsert b.screen.calls.toList)
    (fun action _ => action.insertMode_on) h.agree

/-- A run of text that waits is written only while text is not inserted. -/
theorem settle (h : x.InsertsSingly) : x.settle.InsertsSingly where
  agree := h.agree_of_leads x.leads_settle
  waits _ := x.textDone_settle.textRun
  charByChar := by
    by_cases hempty : x.interpreter.textRun = .empty
    · simp only [Progress.settle, hempty, TextRun.flush_empty]
      exact h.charByChar
    · have hoff : ¬ lastInsert x.context.screen.calls.toList = true :=
        h.agree ▸ mt h.waits hempty
      have hcalls := x.context.screen.toList_on (.write x.interpreter.textRun.pending)
      simp only [Progress.settle, TextRun.flush_of_ne hempty]
      exact hcalls ▸ h.charByChar.append_singleton fun _ _ hon => absurd hon hoff

theorem settleBefore (h : x.InsertsSingly) (next : Option Char) :
    (x.settleBefore next).InsertsSingly := by
  unfold Progress.settleBefore
  split
  · exact h.settle
  · exact h

/-- In insert mode a printable character is written by itself, otherwise it waits. -/
theorem addText (h : x.InsertsSingly) (c : Char) : (x.addText c).InsertsSingly := by
  have hagree := h.agree_of_leads (x.leads_addText c)
  cases hmode : x.context.store.getD .insertMode false with
  | true =>
    have hsettle := addText_of_inserting hmode c
    refine ⟨hagree, fun _ => hsettle ▸ (textDone_settle _).textRun, ?_⟩
    rw [hsettle, settle_addText, h.waits hmode]
    simp only
    generalize x.context.store.getD Key.graphicSet Storable.initial = set
    have hcalls := x.context.screen.toList_on (.write ("".push (set.current.translate c)))
    refine hcalls ▸ h.charByChar.append_singleton ?_
    intro text htext _
    cases htext
    simp
  | false =>
    have hwait := addText_of_not_inserting hmode c
    refine ⟨hagree, ?_, ?_⟩
    · intro hon
      rw [hwait] at hon
      exact absurd ((x.insertMode_withWaiting [c]).symm.trans hon) (by simp [hmode])
    · rw [hwait]
      exact h.charByChar

/-- A control character that is executed does not change the insert mode. -/
theorem executeControl (h : x.InsertsSingly) (c : Char) :
    InsertsSingly ⟨{ x.interpreter with state := .ready }, x.context.executeControl c⟩ where
  agree := h.agree_of_leads (x.context.leads_executeControl c)
  waits := by
    have hmode : (x.context.executeControl c).store.getD .insertMode false =
        x.context.store.getD .insertMode false := by
      unfold Context.executeControl
      split
      · rfl
      · split
        · exact insertMode_set_graphicSet _ _
        · split
          · exact insertMode_set_graphicSet _ _
          · rfl
    intro hon
    exact h.waits (hmode.symm.trans hon)
  charByChar := h.charByChar.of_withoutWrites (x.context.withoutWrites_executeControl c)

theorem begin (h : x.InsertsSingly) (c : Char) : (x.begin c).InsertsSingly := by
  cases hc : Opening.ofChar c with
  | text =>
    rw [begin_of_text _ hc]
    exact h.addText c
  | execute =>
    simp only [Progress.begin, hc]
    exact h.executeControl c
  | escape | control | command | skipped | nul | del | ignored =>
    simp only [Progress.begin, hc]
    exact ⟨h.agree, h.waits, h.charByChar⟩

/-- Every character keeps store and screen in agreement and is written accordingly. -/
theorem tick (h : x.InsertsSingly) (hkeeps : x.interpreter.KeepsText) (c : Char) :
    (x.tick c).InsertsSingly := by
  by_cases htext : x.interpreter.state = .ready ∨ x.interpreter.state = .text
  · have htick : x.tick c = (x.settleBefore (some c)).begin c := by
      rcases htext with hstate | hstate <;> rw [Progress.tick, hstate]
    rw [htick]
    exact (h.settleBefore (some c)).begin c
  · rw [not_or] at htext
    have hdone := textDone_tick htext.1 (hkeeps.textDone htext.1 htext.2) c
    refine ⟨h.agree_of_leads (x.leads_tick c), fun _ => hdone.textRun, ?_⟩
    exact h.charByChar.of_withoutWrites (x.withoutWrites_tick htext.1 htext.2 c)

theorem after (h : x.InsertsSingly) (hkeeps : x.interpreter.KeepsText) (s : List Char) :
    (x.after s).InsertsSingly := by
  induction s generalizing x with
  | nil => exact h
  | cons c s ih => exact ih (h.tick hkeeps c) (keepsText_tick hkeeps c)

end InsertsSingly

end Progress

/-! ### Deliveries and resets -/

namespace Terminal

section Printable

variable {σ κ : Type} [Clipboard κ] {t : Terminal σ κ}

/-- With nothing in progress, printable text that is delivered in one piece is written by a single
call, and in insert mode character by character. -/
theorem AtRest.calls_printable (h : t.AtRest) (hready : t.state = .ready) {s : List Char}
    (hne : s ≠ []) (hs : ∀ c ∈ s, isControl c = false) :
    t.calls [s] = writesOf t.insertMode ((t.store.getD .graphicSet .initial).translateAll s) := by
  have hends : ∀ c ∈ s, endsText c = false := fun c hc => endsText_of_not_isControl (hs c hc)
  have hopeners : ∀ c ∈ s, c ∉ openers := by
    intro c hc hopener
    exact absurd (hs c hc) (by simp [isControl_of_mem_openers hopener])
  rw [h.calls_plain hready hopeners, callsOfText_run _ _ hends, printed_of_printable hs]
  exact if_neg (GraphicSet.translateAll_ne_nil _ hne)

end Printable

inductive Operation
  /-- Deliver a piece of text. -/
  | write (s : List Char)
  | reset
  deriving DecidableEq, Repr

section Operations

variable {σ κ : Type} [Screen σ] [Clipboard κ]

def operate (t : Terminal σ κ) : Operation → Terminal σ κ
  | .write s => t.write s
  | .reset => t.reset

def operateAll (t : Terminal σ κ) (ops : List Operation) : Terminal σ κ := ops.foldl operate t

def callsOf (t : Terminal σ κ) (ops : List Operation) : List Call :=
  (t.onTranscript.operateAll ops).screen.calls.toList

theorem AtRest.operateAll {t : Terminal σ κ} (h : t.AtRest) (ops : List Operation) :
    (t.operateAll ops).AtRest := by
  induction ops generalizing t with
  | nil => exact h
  | cons op ops ih =>
    cases op with
    | write s => exact ih (h.write s)
    | reset => exact ih h.reset

end Operations

end Terminal

/-- A likeness remains with every delivery and every reset. -/
theorem Likeness.Terminals.operateAll {σ τ κ μ : Type} [Screen σ] [Screen τ] [Clipboard κ]
    [Clipboard μ] {L : Likeness σ τ κ μ} {t : Terminal σ κ} {u : Terminal τ μ}
    (h : L.Terminals t u) (ops : List Terminal.Operation) :
    L.Terminals (t.operateAll ops) (u.operateAll ops) := by
  induction ops generalizing t u with
  | nil => exact h
  | cons op ops ih =>
    cases op with
    | write s => exact ih (h.write s)
    | reset =>
      refine ih ⟨h.left.reset, h.right.reset, ?_, h.host⟩
      exact congrArg Interpreter.reset h.interpreter

namespace Terminal

variable {κ : Type} [Clipboard κ]

/-- Deliveries and resets keep store and screen in agreement. -/
theorem insertsSingly_operateAll {t : Terminal Transcript κ} (hrest : t.AtRest)
    (h : t.progress.InsertsSingly) (ops : List Operation) :
    (t.operateAll ops).progress.InsertsSingly := by
  induction ops generalizing t with
  | nil => exact h
  | cons op ops ih =>
    cases op with
    | write s =>
      refine ih (hrest.write s) ?_
      have hwritten := (h.after hrest.textDone.keepsText s).settle
      rw [operate, write_eq hrest]
      exact ⟨hwritten.agree, hwritten.waits, hwritten.charByChar⟩
    | reset => exact ih hrest.reset ⟨h.agree, fun _ => rfl, h.charByChar⟩

variable {σ : Type} [Screen σ] (screen : σ) (clipboard : κ) (settings : Settings)

/-- A new terminal on any screen, after deliveries and resets. -/
theorem insertMode_operateAll (ops : List Operation) :
    let start := onScreen screen clipboard settings
    (start.operateAll ops).screen = replay (start.callsOf ops) screen ∧
      (start.operateAll ops).insertMode = lastInsert (start.callsOf ops) ∧
      CharByChar (start.callsOf ops) := by
  intro start
  have hrest : start.AtRest := (Reachable.onScreen screen clipboard settings).atRest
  have hinitial : start.onTranscript.progress.InsertsSingly := ⟨rfl, fun _ => rfl, charByChar_nil⟩
  -- Which calls are made does not depend on the screen, so they are looked at on a transcript.
  have hreplayed := (hrest.replayed.operateAll ops).host
  have hsingly := insertsSingly_operateAll hrest.onTranscript hinitial ops
  exact ⟨hreplayed.screen.1, hreplayed.insertMode_eq.symm.trans hsingly.agree, hsingly.charByChar⟩

/-- Whatever was delivered to a new terminal and however often it was reset: the screen is what
comes of the calls made to it; text is inserted according to the store just if the screen was told
so last; while it was told so, text was written by single characters; and the next printable text
that begins with nothing in progress is written by single characters just then, and otherwise by a
single call. A page that did not insert text from the start inserts it just as the store says. -/
theorem insertMode_eq_lastInsert (ops : List Operation) :
    let start := onScreen screen clipboard settings
    let t := start.operateAll ops
    (t.screen = replay (start.callsOf ops) screen ∧
      t.insertMode = lastInsert (start.callsOf ops) ∧
      CharByChar (start.callsOf ops) ∧
      (t.state = .ready → ∀ s, s ≠ [] → (∀ c ∈ s, isControl c = false) →
        t.calls [s] =
          writesOf (lastInsert (start.callsOf ops))
            ((t.store.getD .graphicSet .initial).translateAll s))) ∧
    ∀ page : Page, page.inserting = false →
      let u := (onScreen page clipboard settings).operateAll ops
      u.insertMode = u.screen.inserting := by
  intro start t
  obtain ⟨hscreen, hmode, hsingly⟩ := insertMode_operateAll screen clipboard settings ops
  refine ⟨⟨hscreen, hmode, hsingly, ?_⟩, ?_⟩
  · intro hready s hne hs
    have hrest : t.AtRest := (Reachable.onScreen screen clipboard settings).atRest.operateAll ops
    rw [hrest.calls_printable hready hne hs, hmode]
  · intro page hpage u
    obtain ⟨hpages, hmode, -⟩ := insertMode_operateAll page clipboard settings ops
    rw [hmode, hpages, Page.inserting_replay, hpage]
    rfl

/-- A page in insert mode, to which the beginning of a command was delivered before a reset. -/
theorem insertMode_eq_lastInsert_page :
    let start := onPage (.empty 80) .standard
    let ops := [.write "a\x1b[4hbc\x1b]0;t".toList, .reset]
    start.callsOf ops = [.write "a", .insert true, .write "b", .write "c"] ∧
      (start.operateAll ops).insertMode = true ∧
      (start.operateAll ops).screen.inserting = true ∧
      (start.operateAll ops).calls ["de".toList] = [.write "d", .write "e"] := by
  intro start ops
  have hrest : start.AtRest := (Reachable.onScreen _ _ _).atRest
  have hcalls : start.callsOf ops = [.write "a", .insert true, .write "b", .write "c"] := by
    change (start.onTranscript.write "a\x1b[4hbc\x1b]0;t".toList).reset.screen.calls.toList = _
    rw [write_eq hrest.onTranscript]
    decide +kernel
  have hset : (start.operateAll ops).store.getD Key.graphicSet .initial = .initial := by
    change (start.write "a\x1b[4hbc\x1b]0;t".toList).store.getD Key.graphicSet .initial = _
    rw [write_eq hrest]
    decide +kernel
  obtain ⟨⟨-, hmode, -, hnext⟩, hpage⟩ :=
    insertMode_eq_lastInsert (Page.empty 80) MemoryClipboard.empty .standard ops
  have hon : lastInsert (start.callsOf ops) = true := by rw [hcalls]; rfl
  refine ⟨hcalls, hmode.trans hon, (hpage _ rfl).symm.trans (hmode.trans hon), ?_⟩
  calc (start.operateAll ops).calls ["de".toList]
      = writesOf (lastInsert (start.callsOf ops))
          (((start.operateAll ops).store.getD Key.graphicSet .initial).translateAll
            "de".toList) := hnext rfl _ (by decide) (by simp [isControl, inRange])
    _ = [.write "d", .write "e"] := by
      rw [hset, hon]
      rfl

end Terminal

end ControlStream
