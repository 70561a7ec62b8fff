import ControlStream.Proofs.InsertMode
import ControlStream.Proofs.Packing

/-!
# Text that goes forward

Only CR and BS are there to move the cursor to the left. Without them, and without the insert mode,
a page is filled from the left to the right and from the top to the bottom, so what was written
should stay. It does but for one case. When a row is full, the cursor stands past the last column,
and a tab, which never goes beyond the last column, takes it back by one. The next character, if it
has one cell, then replaces the last one of the row instead of going to the next row.

## Main definitions

* `Call.Forward`: calls that are not there to move the cursor to the left.
* `Page.shown`: the characters on a page, in the order they are read.
* `Spread`: a text with blanks between its characters.
* `Page.Loses`: a character that is put on a page replaces another one.
* `Page.keepCalls`: what was written, less the characters that were replaced.

## Main statements

* `Page.GoesForward.replay`: the cursor stays behind all cells, or goes back to the last column of a
  full row.
* `Page.GoesForward.shown_put`: a character is added to what is shown, or replaces its end.
* `Page.forward_replay`: what is shown after any forward calls.
-/

namespace ControlStream

/-- The calls that are not there to move the cursor to the left. -/
def Call.Forward : Call → Prop
  | .write _ => True
  | .control c =>
    c ∈ [ControlChar.tab, ControlChar.lf, ControlChar.vt, ControlChar.ff, ControlChar.bel]
  | .insert _ => False

instance : DecidablePred Call.Forward
  | .write _ => .isTrue trivial
  | .control c => inferInstanceAs (Decidable (c ∈ _))
  | .insert _ => .isFalse id

/-! ### Text with blanks -/

/-- What is shown is a text, in order, with blanks between its characters. -/
inductive Spread : List Char → List Char → Prop
  | nil : Spread [] []
  | concat {text shown : List Char} (h : Spread text shown) (blanks : Nat) (c : Char) :
    Spread (text ++ [c]) (shown ++ List.replicate blanks ' ' ++ [c])

namespace Spread

variable {text shown : List Char}

theorem sublist (h : Spread text shown) : text.Sublist shown := by
  induction h with
  | nil => exact .refl []
  | concat _ blanks c ih => exact (ih.trans (List.sublist_append_left _ _)).append_right [c]

/-- What is shown ends with the last character of the text. -/
theorem replace_last (h : Spread text shown) (hne : shown ≠ []) (c : Char) :
    Spread (text.dropLast ++ [c]) (shown.dropLast ++ [c]) := by
  cases h with
  | nil => exact absurd rfl hne
  | concat h blanks d =>
    rw [List.dropLast_concat, List.dropLast_concat]
    exact h.concat blanks c

end Spread

namespace Page

variable {p : Page} {c : Char}

/-! ### What a page shows -/

/-- The characters on a page, row by row and from the left to the right. -/
def shown (p : Page) : List Char := p.rows.flatten.filterMap Row.char?

theorem shown_eq (p : Page) :
    p.shown = p.above.reverse.flatten.filterMap Row.char? ++ p.current.filterMap Row.char? := by
  simp [shown, rows]

theorem shown_recordText (p : Page) (s : String) : (p.recordText s).shown = p.shown := by
  rw [shown, rows_recordText, shown]

/-- Of the control characters only the tab moves the cursor to another column. -/
theorem control_of_forward (p : Page) (hc : Call.Forward (.control c)) :
    (c = ControlChar.tab ∧ p.control c = p.tab) ∨ p.control c = p.lineFeed ∨
      p.control c = { p with bells := p.bells + 1 } := by
  simp only [Call.Forward, List.mem_cons, List.not_mem_nil, or_false] at hc
  rcases hc with rfl | rfl | rfl | rfl | rfl
  · exact .inl ⟨rfl, rfl⟩
  · exact .inr (.inl rfl)
  · exact .inr (.inl rfl)
  · exact .inr (.inl rfl)
  · exact .inr (.inr rfl)

theorem shown_control (p : Page) (hc : Call.Forward (.control c)) :
    (p.control c).shown = p.shown := by
  obtain ⟨-, hcontrol⟩ | hcontrol | hcontrol := p.control_of_forward hc
  · rw [hcontrol]
    rfl
  · rw [hcontrol, shown, rows_lineFeed, List.flatten_append]
    simp [shown]
  · rw [hcontrol]
    rfl

/-- Behind all cells a character is added, with blanks in front of it. -/
theorem shown_put_of_atEnd (hc : cellWidth c ≠ 0)
    (h : (p.wrap (min (cellWidth c) p.width)).AtEnd) :
    ∃ blanks, (p.put c).shown = p.shown ++ List.replicate blanks ' ' ++ [c] := by
  have hrows := (rows_put hc h).1
  split at hrows
  · refine ⟨0, ?_⟩
    rw [shown, hrows, List.flatten_append, List.filterMap_append]
    simp [shown, filterMap_cellsOf]
  · refine ⟨p.column - p.current.length, ?_⟩
    rw [shown, hrows, shown_eq]
    simp [Row.padTo, filterMap_cellsOf, List.filterMap_replicate, Row.char?]

/-! ### A full row -/

/-- The cursor is back in the last column of a full row. -/
def Returned (p : Page) : Prop := p.current.length = p.width ∧ p.column + 1 = p.width

/-- A character replaces another one: it has one cell, and is put in the last column of a full row
that does not end with a spacer. -/
def Loses (p : Page) (c : Char) : Prop :=
  p.Returned ∧ min (cellWidth c) p.width = 1 ∧ p.current.getLast? ≠ some .spacer

instance (p : Page) (c : Char) : Decidable (p.Loses c) := by
  unfold Loses Returned
  infer_instance

theorem AtEnd.not_loses (h : p.AtEnd) (c : Char) : ¬ p.Loses c := by
  rintro ⟨⟨hlength, hcolumn⟩, -⟩
  have hend : p.current.length ≤ p.column := h
  omega

theorem AtEnd.tab (h : p.AtEnd) (hroom : p.current.length < p.width) : p.tab.AtEnd := by
  have hend : p.current.length ≤ p.column := h
  change p.current.length ≤ min ((p.column / tabWidth + 1) * tabWidth) (p.width - 1)
  simp only [tabWidth]
  omega

namespace Returned

theorem wrap_atEnd (h : p.Returned) {n : Nat} (hn : 1 < n) : (p.wrap n).AtEnd := by
  have hcolumn := h.2
  rw [wrap, if_pos (by omega)]
  exact Nat.zero_le _

/-- A character with one cell takes the place of the last cell. -/
theorem put_eq (h : p.Returned) (hmode : p.inserting = false)
    (hone : min (cellWidth c) p.width = 1) :
    p.put c = { p with current := p.current.dropLast ++ [.glyph c], column := p.width } := by
  obtain ⟨hlength, hcolumn⟩ := h
  have hc : cellWidth c ≠ 0 := by omega
  have hwrap : p.wrap 1 = p := if_neg (by omega)
  have hcurrent : p.current.overwrite p.column (cellsOf c 1) =
      p.current.dropLast ++ [.glyph c] := by
    have hpad : p.current.padTo p.column = p.current := by
      rw [Row.padTo, Nat.sub_eq_zero_of_le (by omega)]
      exact List.append_nil _
    have hend : p.column = p.current.length - 1 := by omega
    rw [Row.overwrite, hpad, List.drop_eq_nil_of_le (by simp [cellsOf]; omega), List.append_nil,
      List.dropLast_eq_take, hend]
    rfl
  rw [p.put_of_pos hc, hone, hwrap, place, hmode, if_neg Bool.false_ne_true, hcurrent,
    length_cellsOf Nat.one_pos, hcolumn]

theorem shown_put (h : p.Returned) (hmode : p.inserting = false)
    (hone : min (cellWidth c) p.width = 1) :
    ∃ rest cell, p.current.getLast? = some cell ∧ p.shown = rest ++ (Row.char? cell).toList ∧
      (p.put c).shown = rest ++ [c] := by
  rw [h.put_eq hmode hone, shown_eq, shown_eq]
  obtain hnil | ⟨cells, cell, hcells⟩ := List.eq_nil_or_concat' p.current
  · have hlength := h.1
    rw [hnil] at hlength
    exact absurd hlength (Nat.ne_of_lt p.width_pos)
  rw [hcells, List.dropLast_concat, List.filterMap_append, List.filterMap_append]
  refine ⟨p.above.reverse.flatten.filterMap Row.char? ++ cells.filterMap Row.char?, cell,
    List.getLast?_concat, ?_, ?_⟩
  · rw [List.append_assoc]
    cases cell <;> rfl
  · exact (List.append_assoc _ _ _).symm

end Returned

/-! ### Pages that are filled forward -/

/-- The cursor is behind all cells, or back in the last column of a full row. -/
structure GoesForward (p : Page) : Prop where
  replacing : p.inserting = false
  fits : p.Fits
  place : p.AtEnd ∨ p.Returned

theorem GoesForward.empty (width : Nat) : (empty width).GoesForward :=
  ⟨rfl, .empty width, .inl (Nat.zero_le _)⟩

namespace GoesForward

variable (h : p.GoesForward)
include h

/-- Only a character with one cell is put in the last column of a full row. -/
theorem wrap_atEnd (hc : cellWidth c ≠ 0) :
    (p.wrap (min (cellWidth c) p.width)).AtEnd ∨
      p.Returned ∧ min (cellWidth c) p.width = 1 := by
  have hpos := p.min_cellWidth_pos hc
  obtain hend | hreturned := h.place
  · exact .inl (hend.wrap _)
  · by_cases hone : min (cellWidth c) p.width = 1
    · exact .inr ⟨hreturned, hone⟩
    · exact .inl (hreturned.wrap_atEnd (by omega))

/-- A character is added to what is shown, or replaces its end. -/
theorem shown_put (hc : cellWidth c ≠ 0) :
    (¬ p.Loses c →
        ∃ blanks, (p.put c).shown = p.shown ++ List.replicate blanks ' ' ++ [c]) ∧
      (p.Loses c → p.shown ≠ [] ∧ (p.put c).shown = p.shown.dropLast ++ [c]) := by
  obtain hend | ⟨hreturned, hone⟩ := h.wrap_atEnd hc
  · refine ⟨fun _ => shown_put_of_atEnd hc hend, ?_⟩
    rintro ⟨⟨hlength, hcolumn⟩, hone, -⟩
    have hwrap : p.wrap 1 = p := if_neg (by omega)
    rw [hone, hwrap] at hend
    have hend : p.current.length ≤ p.column := hend
    omega
  · obtain ⟨rest, cell, hlast, hshown, hput⟩ := hreturned.shown_put h.replacing hone
    rw [hput, hshown]
    cases cell with
    | glyph d =>
      refine ⟨fun hkeeps => ?_, fun _ => ⟨by simp [Row.char?], ?_⟩⟩
      · exact absurd ⟨hreturned, hone, by simp [hlast]⟩ hkeeps
      · exact congrArg (· ++ [c]) List.dropLast_concat.symm
    | spacer =>
      refine ⟨fun _ => ⟨0, by simp [Row.char?]⟩, ?_⟩
      rintro ⟨-, -, hglyph⟩
      exact absurd hlast hglyph

theorem put (c : Char) : (p.put c).GoesForward := by
  by_cases hc : cellWidth c = 0
  · rwa [p.put_of_zero hc]
  refine ⟨(p.inserting_put c).trans h.replacing, h.fits.put c, .inl ?_⟩
  obtain hend | ⟨hreturned, hone⟩ := h.wrap_atEnd hc
  · rw [p.put_of_pos hc]
    exact hend.place _
  · -- The row is full again, and the cursor past its last column.
    have hlength := hreturned.1
    have hpos := p.width_pos
    rw [hreturned.put_eq h.replacing hone]
    simp only [AtEnd, List.length_append, List.length_dropLast, List.length_singleton]
    omega

theorem control (hc : Call.Forward (.control c)) : (p.control c).GoesForward := by
  have hfits := h.fits.control c
  obtain ⟨-, hcontrol⟩ | hcontrol | hcontrol := p.control_of_forward hc
  all_goals rw [hcontrol] at hfits ⊢
  · refine ⟨h.replacing, hfits, ?_⟩
    by_cases hroom : p.current.length < p.width
    · obtain hend | hreturned := h.place
      · exact .inl (hend.tab hroom)
      · exact absurd hreturned.1 (Nat.ne_of_lt hroom)
    · -- From a full row a tab goes to the last column.
      have hlength : p.current.length = p.width := by
        have hle := (eachRow_iff.mp h.fits.rows).2
        omega
      refine .inr ⟨hlength, ?_⟩
      have hpos := p.width_pos
      have hplace := h.place
      simp only [AtEnd, Returned] at hplace
      simp only [Page.tab, tabWidth]
      omega
  · exact ⟨h.replacing, hfits, .inl (Nat.zero_le _)⟩
  · exact ⟨h.replacing, hfits, h.place⟩

theorem recordText (s : String) : (p.recordText s).GoesForward := by
  unfold Page.recordText
  split
  · exact ⟨h.replacing, ⟨h.fits.column, h.fits.rows⟩, h.place⟩
  · exact h

end GoesForward

/-! ### What remains of a text -/

/-- What remains of a text if a character is put: it comes behind the others, or replaces the
last one. -/
def keep (p : Page) (kept : List Char) (c : Char) : List Char :=
  if cellWidth c = 0 then kept
  else if p.Loses c then kept.dropLast ++ [c]
  else kept ++ [c]

def keepText (p : Page) (kept : List Char) : List Char → List Char
  | [] => kept
  | c :: s => (p.put c).keepText (p.keep kept c) s

def keepCall (p : Page) (kept : List Char) : Call → List Char
  | .write text => p.keepText kept text.toList
  | .control _ | .insert _ => kept

/-- What was written by calls, less the characters that were replaced. -/
def keepCalls (p : Page) (kept : List Char) : List Call → List Char
  | [] => kept
  | call :: calls => (call.on p).keepCalls (p.keepCall kept call) calls

section Sublist

variable {kept text : List Char}

/-- The characters that remain are in the order in which they were written. -/
theorem keepText_sublist (p : Page) (h : kept.Sublist text) (s : List Char) :
    (p.keepText kept s).Sublist (text ++ s.filter (cellWidth · ≠ 0)) := by
  induction s generalizing p kept text with
  | nil => rwa [List.filter_nil, List.append_nil]
  | cons c s ih =>
    by_cases hc : cellWidth c = 0
    · rw [List.filter_cons_of_neg (by simpa using hc)]
      refine ih (p.put c) ?_
      rwa [keep, if_pos hc]
    · rw [List.filter_cons_of_pos (by simpa using hc), List.append_cons]
      refine ih (p.put c) ?_
      rw [keep, if_neg hc]
      split
      · exact ((List.dropLast_sublist kept).trans h).append_right [c]
      · exact h.append_right [c]

theorem keepCalls_sublist (p : Page) (h : kept.Sublist text) (calls : List Call) :
    (p.keepCalls kept calls).Sublist (text ++ writtenText calls) := by
  induction calls generalizing p kept text with
  | nil => rwa [writtenText, List.flatMap_nil, List.filter_nil, List.append_nil]
  | cons call calls ih =>
    rw [writtenText_cons, ← List.append_assoc]
    refine ih (call.on p) ?_
    cases call with
    | write s => exact p.keepText_sublist h s.toList
    | control c => rwa [Call.text, List.filter_nil, List.append_nil]
    | insert enabled => rwa [Call.text, List.filter_nil, List.append_nil]

end Sublist

/-- Behind all cells nothing is replaced. -/
theorem AtEnd.keepText (h : p.AtEnd) (kept s : List Char) :
    p.keepText kept s = kept ++ s.filter (cellWidth · ≠ 0) := by
  induction s generalizing p kept with
  | nil => exact (List.append_nil kept).symm
  | cons c s ih =>
    rw [Page.keepText, ih (h.put c), keep, if_neg (h.not_loses c)]
    by_cases hc : cellWidth c = 0
    · rw [if_pos hc, List.filter_cons_of_neg (by simpa using hc)]
    · rw [if_neg hc, List.filter_cons_of_pos (by simpa using hc), ← List.append_cons]

/-- The cursor stays behind all cells, unless a tab comes behind a full row. -/
theorem AtEnd.on (h : p.AtEnd) {call : Call} (hcall : call.Forward)
    (htab : call = .control ControlChar.tab → p.current.length < p.width) : (call.on p).AtEnd := by
  cases call with
  | write text => exact (h.sparesText text.toList).2.recordText text
  | control c =>
    change (p.control c).AtEnd
    obtain ⟨rfl, hcontrol⟩ | hcontrol | hcontrol := p.control_of_forward hcall
    all_goals rw [hcontrol]
    · exact h.tab (htab rfl)
    · exact Nat.zero_le _
    · exact h
  | insert enabled => exact absurd hcall id

/-- If no tab comes behind a full row, nothing is replaced. -/
theorem AtEnd.keepCalls (h : p.AtEnd) {calls : List Call} (hcalls : ∀ call ∈ calls, call.Forward)
    (htabs : ∀ i < calls.length, calls[i]? = some (.control ControlChar.tab) →
      (replay (calls.take i) p).current.length < p.width) (kept : List Char) :
    p.keepCalls kept calls = kept ++ writtenText calls := by
  induction calls generalizing p kept with
  | nil => exact (List.append_nil kept).symm
  | cons call calls ih =>
    obtain ⟨hcall, hcalls⟩ := List.forall_mem_cons.mp hcalls
    have hend : (call.on p).AtEnd :=
      h.on hcall fun htab => htabs 0 (Nat.succ_pos _) (congrArg some htab)
    have hrest : ∀ i < calls.length, calls[i]? = some (.control ControlChar.tab) →
        (replay (calls.take i) (call.on p)).current.length < (call.on p).width := by
      intro i hi htab
      rw [width_on]
      exact htabs (i + 1) (Nat.succ_lt_succ hi) htab
    have hkept : p.keepCall kept call = kept ++ call.text.filter (cellWidth · ≠ 0) := by
      cases call with
      | write text => exact h.keepText kept text.toList
      | control c => exact (List.append_nil kept).symm
      | insert enabled => exact (List.append_nil kept).symm
    rw [Page.keepCalls, ih hend hcalls hrest, hkept, writtenText_cons, List.append_assoc]

namespace GoesForward

variable {kept : List Char}

/-- What is shown remains a text with blanks between its characters. -/
theorem spread_put (h : p.GoesForward) (hspread : Spread kept p.shown) (c : Char) :
    Spread (p.keep kept c) (p.put c).shown := by
  by_cases hc : cellWidth c = 0
  · rwa [keep, if_pos hc, p.put_of_zero hc]
  · obtain ⟨hkeeps, hloses⟩ := h.shown_put hc
    rw [keep, if_neg hc]
    split
    · obtain ⟨hne, hput⟩ := hloses ‹_›
      rw [hput]
      exact hspread.replace_last hne c
    · obtain ⟨blanks, hput⟩ := hkeeps ‹_›
      rw [hput]
      exact hspread.concat blanks c

theorem putAll (h : p.GoesForward) (hspread : Spread kept p.shown) (s : List Char) :
    (p.putAll s).GoesForward ∧ Spread (p.keepText kept s) (p.putAll s).shown := by
  induction s generalizing p kept with
  | nil => exact ⟨h, hspread⟩
  | cons c s ih => exact ih (h.put c) (h.spread_put hspread c)

theorem replay (h : p.GoesForward) (hspread : Spread kept p.shown) {calls : List Call}
    (hcalls : ∀ call ∈ calls, call.Forward) :
    (replay calls p).GoesForward ∧ Spread (p.keepCalls kept calls) (replay calls p).shown := by
  induction calls generalizing p kept with
  | nil => exact ⟨h, hspread⟩
  | cons call calls ih =>
    obtain ⟨hcall, hrest⟩ := List.forall_mem_cons.mp hcalls
    cases call with
    | write text =>
      obtain ⟨hput, hspread⟩ := h.putAll hspread text.toList
      rw [← shown_recordText _ text] at hspread
      exact ih (hput.recordText text) hspread hrest
    | control c =>
      rw [← p.shown_control hcall] at hspread
      exact ih (h.control hcall) hspread hrest
    | insert enabled => exact absurd hcall id

end GoesForward

/-- After forward calls an empty page shows what was written, in order and with blanks in between,
less the characters that were replaced. A further character that has cells is added to that, or, put
in the last column of a full row, replaces its end; a forward control character changes nothing
about it. Without a tab behind a full row, nothing was replaced. -/
theorem forward_replay (width : Nat) {calls : List Call} (hcalls : ∀ call ∈ calls, call.Forward) :
    let p := replay calls (empty width)
    let kept := (empty width).keepCalls [] calls
    Spread kept p.shown ∧ kept.Sublist (writtenText calls) ∧
    (∀ c, cellWidth c ≠ 0 →
      (¬ p.Loses c →
        ∃ blanks, (p.put c).shown = p.shown ++ List.replicate blanks ' ' ++ [c]) ∧
      (p.Loses c → p.shown ≠ [] ∧ (p.put c).shown = p.shown.dropLast ++ [c])) ∧
    (∀ c, Call.Forward (.control c) → (p.control c).shown = p.shown) ∧
    ((∀ i < calls.length, calls[i]? = some (.control ControlChar.tab) →
        (replay (calls.take i) (empty width)).current.length < p.width) →
      kept = writtenText calls) := by
  intro p kept
  obtain ⟨hforward, hspread⟩ := (GoesForward.empty width).replay .nil hcalls
  refine ⟨hspread, keepCalls_sublist _ .slnil calls, fun c => hforward.shown_put, ?_, ?_⟩
  · intro c hc
    exact p.shown_control hc
  · intro htabs
    rw [width_replay] at htabs
    have hend : (empty width).AtEnd := Nat.zero_le _
    exact hend.keepCalls hcalls htabs []

/-- Tabs within a row and in its last column. -/
theorem forward_replay_stops :
    let calls := [.write "ab", .control ControlChar.tab, .write "c", .control ControlChar.tab,
      .write "de", .control ControlChar.lf, .write "世", .control ControlChar.tab]
    let p := replay calls (empty 10)
    (∀ call ∈ calls, call.Forward) ∧ writtenText calls = "abcde世".toList ∧
      p.shown = "ab      cde 世".toList ∧ Spread "abcde世".toList p.shown ∧
      ∃ blanks, (p.put 'f').shown =
        "ab      cde 世".toList ++ List.replicate blanks ' ' ++ ['f'] := by
  intro calls p
  have hcalls : ∀ call ∈ calls, call.Forward := by decide +kernel
  have htext : writtenText calls = "abcde世".toList := by decide +kernel
  have hshown : p.shown = "ab      cde 世".toList := by decide +kernel
  obtain ⟨hspread, -, hput, -, hkept⟩ := forward_replay 10 hcalls
  rw [hkept (by decide +kernel), htext] at hspread
  obtain ⟨blanks, hblanks⟩ := (hput 'f' (by decide +kernel)).1 (by decide +kernel)
  refine ⟨hcalls, htext, hshown, hspread, blanks, ?_⟩
  rw [← hshown]
  exact hblanks

/-- A tab behind a full row takes the cursor back to its last character, which the next one
replaces. -/
theorem not_spread_tab :
    let calls := [.write "abcd", .control ControlChar.tab, .write "x"]
    let p := replay calls (empty 4)
    (∀ call ∈ calls, call.Forward) ∧ writtenText calls = "abcdx".toList ∧
      p.lines = ["abcx"] ∧ ¬ Spread (writtenText calls) p.shown := by
  intro calls p
  refine ⟨by decide +kernel, by decide +kernel, by decide +kernel, ?_⟩
  intro hspread
  have hd : 'd' ∈ p.shown := hspread.sublist.subset (by decide +kernel)
  revert hd
  decide +kernel

end Page

end ControlStream
