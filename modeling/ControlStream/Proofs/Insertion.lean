import ControlStream.Proofs.ControlMeaning
import ControlStream.Proofs.InsertMode
import ControlStream.Proofs.Packing

/-!
# Text in front of text

Text that is inserted at the start of a row comes in front of what is there. Every character that is
inserted pushes the rest of the row to the right by its own cells, and the cursor stays between what
was inserted and what was there before. As long as all of it fits in the row, nothing is lost.

Which calls were made for a text is only known up to the pieces it was delivered in. What they
spell, letter by letter, does not depend on the pieces, and in insert mode the letters are the
calls.

## Main definitions

* `textWidth`: the number of cells of a text.
* `Call.letters`: a call that writes a text, as calls that write its characters.
* `Page.Between`: the cursor is between two texts in the only row of a page.

## Main statements

* `Page.Between.put`: a character goes in between.
* `calls_of_letters`: what calls are that spell a text and then something else.
* `Terminal.AtRest.calls_append`: the calls for some deliveries, and for more of them.
* `Terminal.insertion_prepends`: text that is inserted at the start of a row.
-/

namespace ControlStream

open ControlChar

/-! ### Cells of a text -/

def textWidth : List Char → Nat
  | [] => 0
  | c :: s => cellWidth c + textWidth s

@[simp] theorem textWidth_nil : textWidth [] = 0 := rfl

@[simp] theorem textWidth_cons (c : Char) (s : List Char) :
    textWidth (c :: s) = cellWidth c + textWidth s := rfl

@[simp] theorem textWidth_append (s t : List Char) :
    textWidth (s ++ t) = textWidth s + textWidth t := by
  induction s with
  | nil => exact (Nat.zero_add _).symm
  | cons c s ih => rw [List.cons_append, textWidth_cons, textWidth_cons, ih, Nat.add_assoc]

def cellsOfText (s : List Char) : Row := s.flatMap fun c => cellsOf c (cellWidth c)

theorem cellsOfText_append (s t : List Char) :
    cellsOfText (s ++ t) = cellsOfText s ++ cellsOfText t :=
  List.flatMap_append

theorem cellsOfText_singleton (c : Char) : cellsOfText [c] = cellsOf c (cellWidth c) :=
  List.flatMap_singleton _ _

theorem length_cellsOfText {s : List Char} (hs : ∀ c ∈ s, 0 < cellWidth c) :
    (cellsOfText s).length = textWidth s := by
  induction s with
  | nil => rfl
  | cons c s ih =>
    rw [List.forall_mem_cons] at hs
    rw [textWidth_cons, ← ih hs.2, ← Page.length_cellsOf (c := c) hs.1, ← List.length_append]
    rfl

/-! ### Characters between two texts -/

namespace Page

/-- A page has one row, which shows one text and then another one, with the cursor between them. -/
structure Between (p : Page) (before after : List Char) : Prop where
  above_eq : p.above = []
  current_eq : p.current = cellsOfText before ++ cellsOfText after
  column_eq : p.column = (cellsOfText before).length

theorem between_empty (width : Nat) : (empty width).Between [] [] := ⟨rfl, rfl, rfl⟩

namespace Between

variable {p : Page} {before after : List Char}

/-- Cells that are put at the cursor come between the texts if they push aside what is behind it,
or if there is nothing behind it. -/
theorem current_place (h : p.Between before after) (hmode : p.inserting = true ∨ after = [])
    {cells : Row} (hroom : p.current.length + cells.length ≤ p.width) :
    (p.place cells).current = cellsOfText before ++ cells ++ cellsOfText after := by
  have hlength : p.current.length = p.column + (cellsOfText after).length := by
    rw [h.current_eq, h.column_eq, List.length_append]
  have hpad : p.current.padTo p.column = p.current := by
    rw [Row.padTo, hlength, Nat.sub_eq_zero_of_le (Nat.le_add_right _ _), List.replicate_zero,
      List.append_nil]
  rcases hmode with hmode | rfl
  · have hbefore : p.current.take p.column = cellsOfText before := by
      rw [h.current_eq, h.column_eq, List.take_left]
    have hafter : p.current.drop p.column = cellsOfText after := by
      rw [h.current_eq, h.column_eq, List.drop_left]
    simp only [place, hmode, if_true, Row.insert, hpad, hbefore, hafter]
    refine List.take_of_length_le ?_
    have hcolumn := h.column_eq
    simp only [List.length_append]
    omega
  · have hnone : (cellsOfText []).length = 0 := rfl
    have hend : p.AtEnd := Nat.le_of_eq (by omega)
    rw [hend.current_place (by omega), hpad, h.current_eq]
    exact congrArg (· ++ cells) (List.append_nil _) |>.trans (List.append_nil _).symm

/-- A character goes between the texts, and the cursor behind it. -/
theorem put (h : p.Between before after) (hmode : p.inserting = true ∨ after = []) {c : Char}
    (hc : 0 < cellWidth c) (hroom : p.current.length + cellWidth c ≤ p.width) :
    (p.put c).Between (before ++ [c]) after := by
  have hcells : (cellsOf c (cellWidth c)).length = cellWidth c := length_cellsOf hc
  have hcolumn : p.column ≤ p.current.length := by
    rw [h.column_eq, h.current_eq, List.length_append]
    exact Nat.le_add_right _ _
  have hput : p.put c = p.place (cellsOf c (cellWidth c)) := by
    rw [p.put_of_pos (Nat.ne_of_gt hc), Nat.min_eq_left (by omega), wrap, if_neg (by omega)]
  rw [hput]
  refine ⟨h.above_eq, ?_, ?_⟩
  · rw [h.current_place hmode (by omega), cellsOfText_append, cellsOfText_singleton]
  · rw [column_place, h.column_eq, cellsOfText_append, cellsOfText_singleton, List.length_append]

/-- So do the characters of a text. -/
theorem putAll (h : p.Between before after) (hmode : p.inserting = true ∨ after = [])
    {s : List Char} (hwidth : ∀ c ∈ before ++ s ++ after, 0 < cellWidth c)
    (hroom : textWidth (before ++ s ++ after) ≤ p.width) :
    (p.putAll s).Between (before ++ s) after := by
  induction s generalizing p before with
  | nil =>
    rw [List.append_nil]
    exact h
  | cons c s ih =>
    have hlength : p.current.length = textWidth (before ++ after) := by
      rw [h.current_eq, ← cellsOfText_append]
      exact length_cellsOfText fun d hd => hwidth d (by grind)
    have hfits : p.current.length + cellWidth c ≤ p.width := by
      simp only [textWidth_append, textWidth_cons] at hlength hroom
      omega
    have hput := h.put hmode (hwidth c (by simp)) hfits
    rw [List.append_cons] at hwidth hroom ⊢
    exact ih hput (by rwa [inserting_put]) hwidth (by rwa [width_put])

theorem recordText (h : p.Between before after) (text : String) :
    (p.recordText text).Between before after := by
  unfold Page.recordText
  split <;> exact ⟨h.above_eq, h.current_eq, h.column_eq⟩

/-- So do the texts of calls. -/
theorem replay_writes (h : p.Between before after) (hmode : p.inserting = true ∨ after = [])
    {texts : List String} {s : List Char} (htexts : texts.flatMap String.toList = s)
    (hwidth : ∀ c ∈ before ++ s ++ after, 0 < cellWidth c)
    (hroom : textWidth (before ++ s ++ after) ≤ p.width) :
    (replay (texts.map .write) p).Between (before ++ s) after := by
  induction texts generalizing p before s with
  | nil =>
    subst htexts
    rw [List.flatMap_nil, List.append_nil]
    exact h
  | cons text texts ih =>
    subst htexts
    rw [List.flatMap_cons, ← List.append_assoc] at hwidth hroom ⊢
    have hput : (p.putAll text.toList).Between (before ++ text.toList) after := by
      refine h.putAll hmode (fun c hc => hwidth c (by grind)) ?_
      simp only [textWidth_append] at hroom ⊢
      omega
    have hfirst : (Call.on p (.write text)).Between (before ++ text.toList) after :=
      hput.recordText text
    have hinserting : (Call.on p (.write text)).inserting = p.inserting := p.inserting_on _
    exact ih hfirst (by rwa [hinserting]) rfl hwidth (by rwa [width_on])

/-- After a carriage return the cursor is in front of the row. -/
theorem carriageReturn (h : p.Between before []) : (p.control cr).Between [] before where
  above_eq := h.above_eq
  current_eq := h.current_eq.trans (List.append_nil _)
  column_eq := rfl

theorem setInsertMode (h : p.Between before after) (enabled : Bool) :
    (p.setInsertMode enabled).Between before after := ⟨h.above_eq, h.current_eq, h.column_eq⟩

theorem rows_eq (h : p.Between before after) :
    p.rows = [cellsOfText before ++ cellsOfText after] := by
  rw [rows, h.above_eq, h.current_eq]
  rfl

end Between

end Page

/-! ### The record of a page -/

def textsOf (calls : List Call) : List String :=
  calls.filterMap fun | .write text => some text | .control _ | .insert _ => none

theorem textsOf_append (calls more : List Call) :
    textsOf (calls ++ more) = textsOf calls ++ textsOf more :=
  List.filterMap_append

theorem textsOf_map_write (texts : List String) : textsOf (texts.map .write) = texts := by
  induction texts with
  | nil => rfl
  | cons text texts ih => exact congrArg (text :: ·) ih

namespace Page

/-- Laying out characters does not touch the record. -/
theorem record_putAll (p : Page) (s : List Char) :
    (p.putAll s).recording = p.recording ∧ (p.putAll s).writes = p.writes := by
  induction s generalizing p with
  | nil => exact ⟨rfl, rfl⟩
  | cons c s ih =>
    have hput : (p.put c).recording = p.recording ∧ (p.put c).writes = p.writes := by
      unfold put
      split
      · exact ⟨rfl, rfl⟩
      · simp only [place, wrap]
        split <;> exact ⟨rfl, rfl⟩
    exact ⟨(ih (p.put c)).1.trans hput.1, (ih (p.put c)).2.trans hput.2⟩

/-- A page that records texts adds to the record what calls write, text by text. -/
theorem toList_writes_replay {p : Page} (hrecording : p.recording = true) (calls : List Call) :
    (replay calls p).writes.toList = p.writes.toList ++ textsOf calls := by
  induction calls generalizing p with
  | nil => exact (List.append_nil _).symm
  | cons call calls ih =>
    cases call with
    | write text =>
      obtain ⟨hsame, hwrites⟩ := p.record_putAll text.toList
      have hon : Call.on p (.write text) =
          { p.putAll text.toList with writes := (p.putAll text.toList).writes.push text } :=
        if_pos (hsame.trans hrecording)
      have hrest := ih (p := Call.on p (.write text)) (by rw [hon]; exact hsame.trans hrecording)
      rw [replay, List.foldl_cons]
      refine hrest.trans ?_
      rw [hon, Array.toList_push, hwrites, List.append_assoc]
      rfl
    | control c =>
      have hcontrol : (p.control c).recording = p.recording ∧ (p.control c).writes = p.writes := by
        unfold control
        repeat' split
        all_goals exact ⟨rfl, rfl⟩
      have hrest := ih (p := p.control c) (hcontrol.1.trans hrecording)
      rw [hcontrol.2] at hrest
      exact hrest
    | insert enabled => exact ih (p := p.setInsertMode enabled) hrecording

end Page

/-! ### What calls spell -/

def Call.letter (c : Char) : Call := .write (.singleton c)

/-- A call that writes a text, as calls that write its characters one by one. -/
def Call.letters : Call → List Call
  | .write text => text.toList.map letter
  | call => [call]

theorem Call.letter_injective : Function.Injective letter := by
  intro c d h
  have htext := congrArg String.toList (Call.write.inj h)
  simpa using htext

theorem Call.letters_letter (c : Char) : (letter c).letters = [letter c] := by
  simp [letter, letters]

/-- Joining texts does not change what is spelled. -/
theorem flatMap_letters_joinWrites (calls : List Call) :
    (joinWrites calls).flatMap Call.letters = calls.flatMap Call.letters :=
  flatMap_joinWrites (by simp [Call.letters]) calls

/-- Calls that spell a text and then make another call write the text first. -/
theorem exists_texts_of_letters {calls : List Call} {s : List Char} {call : Call}
    {rest : List Call} (hcall : ∀ text, call ≠ .write text)
    (h : calls.flatMap Call.letters = s.map Call.letter ++ call :: rest) :
    ∃ (texts : List String) (more : List Call),
      calls = texts.map .write ++ call :: more ∧ texts.flatMap String.toList = s ∧
        more.flatMap Call.letters = rest := by
  induction calls generalizing s with
  | nil => simp at h
  | cons first calls ih =>
    rw [List.flatMap_cons] at h
    cases first with
    | write text =>
      rw [Call.letters] at h
      rcases List.append_eq_append_iff.mp h with ⟨back, hs, hrest⟩ | ⟨back, htext, hrest⟩
      · obtain ⟨front, last, rfl, hfront, rfl⟩ := List.map_eq_append_iff.mp hs
        obtain rfl := Call.letter_injective.list_map hfront
        obtain ⟨texts, more, rfl, rfl, hmore⟩ := ih hrest
        exact ⟨text :: texts, more, rfl, rfl, hmore⟩
      · cases back with
        | nil =>
          rw [List.append_nil] at htext
          obtain rfl := Call.letter_injective.list_map htext
          obtain ⟨texts, more, rfl, hs, hmore⟩ := ih (s := []) hrest.symm
          refine ⟨text :: texts, more, rfl, ?_, hmore⟩
          rw [List.flatMap_cons, hs, List.append_nil]
        | cons other back =>
          -- Every letter of the text is written, but this call is none that writes.
          obtain ⟨rfl, -⟩ := List.cons.inj hrest
          have hmem : call ∈ text.toList.map Call.letter := by simp [htext]
          obtain ⟨c, -, hc⟩ := List.mem_map.mp hmem
          exact absurd hc.symm (hcall _)
    | control c | insert enabled =>
      cases s with
      | nil =>
        obtain ⟨rfl, hrest⟩ := List.cons.inj h
        exact ⟨[], calls, rfl, rfl, hrest⟩
      | cons d s => cases (List.cons.inj h).1

/-- The calls that write characters one by one write texts of one character each. -/
theorem map_letter (s : List Char) : s.map Call.letter = (s.map .singleton).map .write :=
  (List.map_map).symm

theorem flatMap_map_singleton (s : List Char) :
    (s.map String.singleton).flatMap String.toList = s := by
  simp [List.flatMap_map]

/-- Texts of one character each are the characters they spell. -/
theorem eq_map_singleton {texts : List String} (h : ∀ text ∈ texts, text.length = 1) :
    texts = (texts.flatMap String.toList).map .singleton := by
  induction texts with
  | nil => rfl
  | cons text texts ih =>
    rw [List.forall_mem_cons] at h
    obtain ⟨c, hc⟩ := List.length_eq_one_iff.mp h.1
    have htext : text = .singleton c := String.toList_injective (by simpa using hc)
    rw [List.flatMap_cons, hc, List.singleton_append, List.map_cons, ← ih h.2, ← htext]

/-- Text that is written on an empty page, and then text in front of it, one character after the
other. -/
theorem Page.between_insertion {width : Nat} {s t : List Char}
    (hwidth : ∀ c ∈ s ++ t, 0 < cellWidth c) (hroom : textWidth (s ++ t) ≤ width)
    {texts : List String} (htexts : texts.flatMap String.toList = s) :
    (replay (texts.map .write ++ [.control cr, .insert true] ++ t.map Call.letter ++
      [.insert false]) (empty width)).Between t s := by
  rw [textWidth_append] at hroom
  have hempty : width ≤ (empty width).width := Nat.le_max_left _ _
  have hwritten : (replay (texts.map .write) (empty width)).Between s [] := by
    refine (between_empty width).replay_writes (.inr rfl) htexts (fun c hc => ?_) ?_
    · exact hwidth c (by grind)
    · simp only [textWidth_append, textWidth_nil]
      omega
  generalize hp : replay (texts.map .write) (empty width) = p at hwritten
  have hfront : ((p.control cr).setInsertMode true).Between [] s :=
    hwritten.carriageReturn.setInsertMode true
  have hsame : ((p.control cr).setInsertMode true).width = (empty width).width := by
    rw [← width_replay (texts.map .write) (empty width), hp]
    rfl
  have hinserted : (replay ((t.map .singleton).map .write)
      ((p.control cr).setInsertMode true)).Between t s := by
    refine hfront.replay_writes (.inl rfl) (flatMap_map_singleton t) (fun c hc => ?_) ?_
    · exact hwidth c (by grind)
    · rw [hsame]
      simp only [textWidth_append, textWidth_nil]
      omega
  rw [replay_append, replay_append, replay_append, hp, map_letter]
  exact hinserted.setInsertMode false

/-- Calls that write leave the insert mode as it is. -/
theorem lastInsert_append_writes (calls : List Call) (texts : List String) :
    lastInsert (calls ++ texts.map .write) = lastInsert calls := by
  induction texts using List.reverseRecOn with
  | nil => rw [List.map_nil, List.append_nil]
  | append_singleton texts text ih =>
    rw [List.map_append, ← List.append_assoc, List.map_singleton, lastInsert_append_singleton, ih]
    rfl

/-- Calls that spell a text, a carriage return, a text in insert mode and nothing else, if no text
is empty and letters are inserted one by one. -/
theorem calls_of_letters {calls : List Call} (hpermitted : ∀ call ∈ calls, call.Permitted)
    (hsingle : CharByChar calls) {s t : List Char}
    (h : calls.flatMap Call.letters =
      s.map Call.letter ++ [.control cr, .insert true] ++ t.map Call.letter ++ [.insert false]) :
    ∃ texts : List String, texts.flatMap String.toList = s ∧ (∀ text ∈ texts, text ≠ "") ∧
      calls = texts.map .write ++ [.control cr, .insert true] ++ t.map Call.letter ++
        [.insert false] := by
  simp only [List.append_assoc, List.cons_append, List.nil_append] at h
  obtain ⟨texts, more, rfl, hs, hmore⟩ := exists_texts_of_letters (by simp) h
  obtain ⟨none, last, rfl, hnone, hlast⟩ := exists_texts_of_letters (s := []) (by simp) hmore
  obtain ⟨inserted, rest, rfl, ht, hrest⟩ := exists_texts_of_letters (by simp) hlast
  have hnonempty : ∀ text, Call.write text ∈ texts.map .write ++ .control cr :: (none.map .write ++
      .insert true :: (inserted.map .write ++ .insert false :: rest)) → text ≠ "" :=
    fun text htext => (hpermitted _ htext).1
  have hnone : none = [] := by
    rw [List.flatMap_eq_nil_iff] at hnone
    refine List.eq_nil_iff_forall_not_mem.mpr fun text htext => hnonempty text (by simp [htext]) ?_
    exact String.toList_injective (hnone text htext)
  subst hnone
  have hrest : rest = [] := by
    rw [List.flatMap_eq_nil_iff] at hrest
    refine List.eq_nil_iff_forall_not_mem.mpr ?_
    rintro (text | c | enabled) hcall
    · have hletters := hrest _ hcall
      rw [Call.letters, List.map_eq_nil_iff] at hletters
      exact hnonempty text (by simp [hcall]) (String.toList_injective hletters)
    · cases hrest _ hcall
    · cases hrest _ hcall
  subst hrest
  have hone : ∀ text ∈ inserted, text.length = 1 := by
    intro text htext
    obtain ⟨front, back, rfl⟩ := List.append_of_mem htext
    refine hsingle (texts.map .write ++ [.control cr, .insert true] ++ front.map .write) text
      (back.map .write ++ [.insert false]) (by simp) ?_
    rw [lastInsert_append_writes, List.append_cons, lastInsert_append_singleton]
    rfl
  have hinserted : inserted.map Call.write = t.map Call.letter := by
    rw [eq_map_singleton hone, ht, map_letter]
  refine ⟨texts, hs, fun text htext => hnonempty text (by simp [htext]), ?_⟩
  rw [← hinserted]
  simp

/-! ### Deliveries, one after the other -/

namespace GraphicSet

/-- With ASCII in use, characters are shown as they are. -/
theorem translateAll_initial (s : List Char) : initial.translateAll s = s := by
  induction s with
  | nil => rfl
  | cons c s ih => exact congrArg (c :: ·) ih

theorem afterAll_initial (s : List Char) : initial.afterAll s = initial := by
  cases s with
  | nil => rfl
  | cons c s => exact afterAll_eq_afterOne initial c s

end GraphicSet

/-- In insert mode or not, a text is spelled. -/
theorem flatMap_letters_writesOf (inserting : Bool) (s : List Char) :
    (writesOf inserting s).flatMap Call.letters = s.map Call.letter := by
  cases inserting with
  | false => simp [writesOf, Call.letters]
  | true =>
    change (s.map Call.letter).flatMap Call.letters = _
    simp only [List.flatMap_map, Call.letters_letter, ← List.map_eq_flatMap]

namespace Terminal

variable {κ : Type} [Clipboard κ]

omit [Clipboard κ] in
/-- Which screens two terminals have does not matter to the calls. -/
theorem onTranscript_congr {σ τ : Type} {t : Terminal σ κ} {u : Terminal τ κ}
    (hinput : t.input = u.input) (hinterpreter : t.interpreter = u.interpreter)
    (hstore : t.host.store = u.host.store) (hclipboard : t.host.clipboard = u.host.clipboard)
    (hreplies : t.host.replies = u.host.replies) (hsettings : t.host.settings = u.host.settings) :
    t.onTranscript = u.onTranscript := by
  simp only [onTranscript, Terminal.mk.injEq, Host.mk.injEq]
  exact ⟨hinput, hinterpreter, hstore, trivial, hclipboard, hreplies, hsettings⟩

/-- The calls for some deliveries and for more of them. -/
theorem AtRest.calls_append {σ : Type} [Screen σ] {t : Terminal σ κ} (h : t.AtRest)
    (pieces more : List (List Char)) :
    t.calls (pieces ++ more) = t.calls pieces ++ (t.writeAll pieces).calls more := by
  have hlike := h.replayed.writeAll pieces
  have hhost := hlike.host
  have hsame : (t.onTranscript.writeAll pieces).onTranscript =
      (t.writeAll pieces).onTranscript :=
    onTranscript_congr (hlike.left.input.trans hlike.right.input.symm) hlike.interpreter
      hhost.store.eq hhost.clipboard hhost.replies (hhost.left.trans hhost.right.symm)
  have hscreen := hlike.left.screen_writeAll more
  rw [calls, writeAll_append, hscreen, Transcript.toList_replay, calls, calls, hsame]
  rfl

/-- Only to deliver is no more than to deliver. -/
theorem operateAll_map_write {σ : Type} [Screen σ] (t : Terminal σ κ)
    (pieces : List (List Char)) : t.operateAll (pieces.map .write) = t.writeAll pieces :=
  List.foldl_map

theorem callsOf_map_write {σ : Type} [Screen σ] (t : Terminal σ κ) (pieces : List (List Char)) :
    t.callsOf (pieces.map .write) = t.calls pieces :=
  congrArg (·.screen.calls.toList) (operateAll_map_write t.onTranscript pieces)

/-- The same, one delivery after the other. -/
theorem AtRest.calls_cons {σ : Type} [Screen σ] {t : Terminal σ κ} (h : t.AtRest)
    (piece : List Char) (pieces : List (List Char)) :
    t.calls (piece :: pieces) = t.calls [piece] ++ (t.write piece).calls pieces :=
  h.calls_append [piece] pieces

def insertSequence (enabled : Bool) : List Char :=
  [esc, '[', '4', if enabled then 'h' else 'l']

/-- Nothing is in progress, and characters are shown as they are. -/
structure ShowsPlainly {σ : Type} (t : Terminal σ κ) : Prop where
  atRest : t.AtRest
  ready : t.state = .ready
  graphicSet : t.store.getD Key.graphicSet .initial = .initial

namespace ShowsPlainly

variable {σ : Type} [Screen σ] {t : Terminal σ κ}

theorem onScreen (screen : σ) (clipboard : κ) (settings : Settings) :
    (Terminal.onScreen screen clipboard settings).ShowsPlainly :=
  ⟨(Reachable.onScreen _ _ _).atRest, rfl, rfl⟩

/-- What printable text spells is that text. -/
theorem text (h : t.ShowsPlainly) {s : List Char} (hs : ∀ c ∈ s, isControl c = false) :
    (t.calls [s]).flatMap Call.letters = s.map Call.letter ∧ (t.write s).ShowsPlainly := by
  have hends : ∀ c ∈ s, endsText c = false := fun c hc => endsText_of_not_isControl (hs c hc)
  have hopeners : ∀ c ∈ s, c ∉ openers := by
    intro c hc hopener
    exact absurd (hs c hc) (by simp [isControl_of_mem_openers hopener])
  have hcalls := h.atRest.calls_plain h.ready hopeners
  have hshows := h.atRest.shows_plain h.ready hopeners
  have hset := hshows.graphicSet
  rw [h.graphicSet] at hcalls hset
  rw [GraphicSet.onAll_textChanges_run hends] at hset
  constructor
  · rw [hcalls, callsOfText_run _ _ hends, printed_of_printable hs, GraphicSet.translateAll_initial,
      textCalls]
    split_ifs with hnone
    · rw [hnone]
      rfl
    · exact flatMap_letters_writesOf _ s
  · refine ⟨h.atRest.write s, ?_, hset.trans (GraphicSet.afterAll_initial _)⟩
    exact (congrArg (·.state) hshows.interpreter).trans h.ready

theorem carriageReturn (h : t.ShowsPlainly) :
    t.calls [[cr]] = [.control cr] ∧ (t.write [cr]).ShowsPlainly := by
  have hopeners : ∀ c ∈ [cr], c ∉ openers := List.forall_mem_singleton.mpr (by decide)
  have hshows := h.atRest.shows_plain h.ready hopeners
  have hset := hshows.graphicSet
  rw [h.graphicSet] at hset
  refine ⟨h.atRest.calls_plain h.ready hopeners, h.atRest.write [cr], ?_, hset⟩
  exact (congrArg (·.state) hshows.interpreter).trans h.ready

/-- A control sequence that turns the insert mode on or off does just that. -/
theorem setInsertMode (h : t.ShowsPlainly) (enabled : Bool) :
    t.calls [insertSequence enabled] = [.insert enabled] ∧
      (t.write (insertSequence enabled)).ShowsPlainly := by
  let final := if enabled then 'h' else 'l'
  have hplain : ControlSequence.IsPlainBody ['4'] := by decide
  have hi : [esc, '['] ∈ controlIntroducers := by decide
  have hfinal : isControlFinal final = true := by cases enabled <;> rfl
  have hpieces : [insertSequence enabled].flatten = [esc, '['] ++ ['4'] ++ [final] := rfl
  have hcalls := h.atRest.calls_meaning h.ready hi hplain (by decide) hfinal hpieces
  have hwrite := h.atRest.writeAll_meaning h.ready hi hplain (by decide) hfinal hpieces
  have hmeaning : ControlSequence.meaningOf ['4'] final = .modes [4] := by
    cases enabled <;> decide
  rw [hmeaning] at hcalls hwrite
  have hstore : (t.write (insertSequence enabled)).store =
      t.store.set .insertMode (final == 'h') := congrArg (·.store) hwrite
  refine ⟨?_, h.atRest.write _, ?_, ?_⟩
  · rw [hcalls]
    cases enabled <;> rfl
  · exact (congrArg (·.state) hwrite).trans h.ready
  · rw [hstore, Store.getD_set_of_ne _ _ (by decide)]
    exact h.graphicSet

/-- What a text, a carriage return and a text in insert mode spell, in whatever pieces. -/
theorem letters_insertion (h : t.ShowsPlainly) {s inserted : List Char}
    (hs : ∀ c ∈ s ++ inserted, isControl c = false) {pieces : List (List Char)}
    (hpieces : pieces.flatten =
      s ++ [cr] ++ insertSequence true ++ inserted ++ insertSequence false) :
    (t.calls pieces).flatMap Call.letters =
      s.map Call.letter ++ [.control cr, .insert true] ++ inserted.map Call.letter ++
        [.insert false] := by
  have hflatten : pieces.flatten =
      [s, [cr], insertSequence true, inserted, insertSequence false].flatten := by
    simp [hpieces]
  obtain ⟨-, hjoined⟩ := sameBesideScreen_of_flatten_eq h.atRest hflatten
  obtain ⟨htext, hfirst⟩ := h.text fun c hc => hs c (List.mem_append_left _ hc)
  obtain ⟨hcr, hsecond⟩ := hfirst.carriageReturn
  obtain ⟨hon, hthird⟩ := hsecond.setInsertMode true
  obtain ⟨hinserted, hfourth⟩ := hthird.text fun c hc => hs c (List.mem_append_right _ hc)
  obtain ⟨hoff, -⟩ := hfourth.setInsertMode false
  rw [← flatMap_letters_joinWrites, hjoined, flatMap_letters_joinWrites, h.atRest.calls_cons,
    hfirst.atRest.calls_cons, hsecond.atRest.calls_cons, hthird.atRest.calls_cons, hcr, hon, hoff]
  simp only [List.flatMap_append, htext, hinserted]
  simp [Call.letters]

end ShowsPlainly

/-- Text that is inserted at the start of a row of a new page, in whatever pieces it is delivered.
The row shows the inserted text and then the one that was there, the cursor is between the two, and
nothing is inserted any more. The first text was written in pieces that make it up, the second one
character by character. -/
theorem insertion_prepends (cols : Nat) (clipboard : κ) (settings : Settings) {s t : List Char}
    (hwidth : ∀ c ∈ s ++ t, 0 < cellWidth c) (hroom : textWidth (s ++ t) ≤ cols)
    {pieces : List (List Char)}
    (hpieces : pieces.flatten = s ++ [cr] ++ "\x1b[4h".toList ++ t ++ "\x1b[4l".toList) :
    let start := onScreen (Page.empty cols) clipboard settings
    let u := start.writeAll pieces
    u.screen.rows = [cellsOfText t ++ cellsOfText s] ∧
      (u.screen.row = 0 ∧ u.screen.column = textWidth t) ∧
      (u.insertMode = false ∧ u.screen.inserting = false) ∧
      ∃ texts : List String, texts.flatMap String.toList = s ∧ (∀ text ∈ texts, text ≠ "") ∧
        u.screen.writes.toList = texts ++ t.map .singleton ∧
        start.calls pieces =
          texts.map .write ++ [.control cr, .insert true] ++ t.map Call.letter ++
            [.insert false] := by
  intro start u
  have hplain : start.ShowsPlainly := .onScreen _ _ _
  have hprintable : ∀ c ∈ s ++ t, isControl c = false := by
    intro c hc
    rw [← Bool.not_eq_true]
    intro hcontrol
    exact Nat.ne_of_gt (hwidth c hc) (cellWidth_of_isControl hcontrol)
  obtain ⟨hmode, hsingle⟩ : u.insertMode = lastInsert (start.calls pieces) ∧
      CharByChar (start.calls pieces) := by
    obtain ⟨-, hoperated⟩ := insertMode_operateAll (Page.empty cols) clipboard settings
      (pieces.map .write)
    rwa [operateAll_map_write, callsOf_map_write] at hoperated
  obtain ⟨texts, htexts, hnonempty, hcalls⟩ := calls_of_letters
    (fun call hcall => hplain.atRest.permitted_of_mem_calls hcall) hsingle
    (hplain.letters_insertion hprintable hpieces)
  have hscreen : u.screen = replay (start.calls pieces) (Page.empty cols) :=
    hplain.atRest.screen_writeAll pieces
  have hbetween : (replay (start.calls pieces) (Page.empty cols)).Between t s := by
    rw [hcalls]
    exact Page.between_insertion hwidth hroom htexts
  refine ⟨?_, ⟨?_, ?_⟩, ⟨?_, ?_⟩, texts, htexts, hnonempty, ?_, hcalls⟩
  · rw [hscreen]
    exact hbetween.rows_eq
  · rw [hscreen, Page.row, hbetween.above_eq]
    rfl
  · rw [hscreen, hbetween.column_eq]
    exact length_cellsOfText fun c hc => hwidth c (List.mem_append_right _ hc)
  · rw [hmode, hcalls, lastInsert_append_singleton]
    rfl
  · rw [hscreen, Page.inserting_replay, hcalls, List.foldl_append]
    rfl
  · rw [hscreen, Page.toList_writes_replay rfl, hcalls, map_letter]
    simp only [textsOf_append, textsOf_map_write]
    simp [textsOf, Page.empty]

/-- Text with wide characters that fills the row, in pieces that cut text and sequences. -/
theorem insertion_prepends_wide :
    let pieces := ["a".toList, "b世\r\x1b[".toList, "4hc".toList, "世\x1b[4".toList, "l".toList]
    let u := (onScreen (Page.empty 7) MemoryClipboard.empty .standard).writeAll pieces
    (∀ c ∈ "ab世".toList ++ "c世".toList, 0 < cellWidth c) ∧
      textWidth ("ab世".toList ++ "c世".toList) ≤ 7 ∧
      u.screen.rows = [[.glyph 'c', .glyph '世', .spacer, .glyph 'a', .glyph 'b', .glyph '世',
        .spacer]] ∧
      u.screen.column = 3 ∧ u.insertMode = false ∧ u.screen.inserting = false ∧
      ∃ texts : List String, texts.flatMap String.toList = "ab世".toList ∧
        u.screen.writes.toList = texts ++ ["c", "世"] := by
  intro pieces u
  have hwidth : ∀ c ∈ "ab世".toList ++ "c世".toList, 0 < cellWidth c := by
    change ∀ c ∈ ['a', 'b', '世', 'c', '世'], 0 < cellWidth c
    simp only [List.forall_mem_cons, List.not_mem_nil, false_implies, implies_true, and_true]
    decide +kernel
  have hroom : textWidth ("ab世".toList ++ "c世".toList) ≤ 7 := by decide +kernel
  have hcells : cellsOfText "c世".toList ++ cellsOfText "ab世".toList =
      [.glyph 'c', .glyph '世', .spacer, .glyph 'a', .glyph 'b', .glyph '世', .spacer] := by
    decide +kernel
  have hcolumn : textWidth "c世".toList = 3 := by decide +kernel
  have hpieces : pieces.flatten =
      "ab世".toList ++ [cr] ++ "\x1b[4h".toList ++ "c世".toList ++ "\x1b[4l".toList := rfl
  obtain ⟨hrows, ⟨-, hcursor⟩, ⟨hmode, hinserting⟩, texts, htexts, -, hwrites, -⟩ :=
    insertion_prepends 7 MemoryClipboard.empty .standard hwidth hroom hpieces
  exact ⟨hwidth, hroom, hrows.trans (congrArg ([·]) hcells), hcursor.trans hcolumn, hmode,
    hinserting, texts, htexts, hwrites⟩

end Terminal

end ControlStream
