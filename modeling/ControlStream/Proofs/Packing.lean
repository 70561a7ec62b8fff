import Mathlib.Data.List.Chain
import ControlStream.Proofs.WidePairs

/-!
# Text that is only written

Text that is written without control characters fills a page row by row. A character goes to a new
row if it does not fit in the rest of the row that the cursor is in, and only then, so the rows are
those lines into which the text is packed from the left. They do not depend on how the text was
divided, and since the cursor is behind all cells, it makes no difference whether text is inserted.

## Main definitions

* `cellsOfAll`: the cells of the characters of a line.
* `IsPacking`: lines into which a text is packed from the left.
* `writtenText`: the characters that calls write and that have cells.

## Main statements

* `IsPacking.unique`: a text is packed in one way only.
* `Page.rows_put`: what a character adds to the rows if no cells are behind its place.
* `Page.Packed.replay`: further text is packed behind the text that is there.
* `Page.packing_replay`: the rows of a page that was only written to.
-/

namespace ControlStream

/-! ### Packing -/

/-- The cells of the characters of a line, none of them wider than the page. -/
def cellsOfAll (width : Nat) (s : List Char) : Row :=
  s.flatMap fun c => cellsOf c (min (cellWidth c) width)

/-- The next line begins with a character that does not fit in the rest of this line. -/
def IsBreak (width : Nat) (line next : List Char) : Prop :=
  ∃ c rest, next = c :: rest ∧ width < (cellsOfAll width (line ++ [c])).length

/-- Lines into which a text is packed from the left. No line is wider than the page, and a new line
begins only where the next character does not fit. -/
structure IsPacking (width : Nat) (s : List Char) (lines : List (List Char)) : Prop where
  flatten_eq : lines.flatten = s
  ne_nil : lines ≠ []
  fits : ∀ line ∈ lines, (cellsOfAll width line).length ≤ width
  breaks : lines.IsChain (IsBreak width)

theorem cellsOfAll_append (width : Nat) (s t : List Char) :
    cellsOfAll width (s ++ t) = cellsOfAll width s ++ cellsOfAll width t :=
  List.flatMap_append

theorem cellsOfAll_singleton (width : Nat) (c : Char) :
    cellsOfAll width [c] = cellsOf c (min (cellWidth c) width) :=
  List.flatMap_singleton _ _

/-- A longer line has no fewer cells. -/
theorem length_cellsOfAll_le {width : Nat} {s t : List Char} (h : s <+: t) :
    (cellsOfAll width s).length ≤ (cellsOfAll width t).length := by
  obtain ⟨rest, rfl⟩ := h
  rw [cellsOfAll_append, List.length_append]
  exact Nat.le_add_right _ _

/-- Of the cells of a character only the first one shows it. -/
theorem filterMap_cellsOf (c : Char) (n : Nat) : (cellsOf c n).filterMap Row.char? = [c] := by
  simp [cellsOf, Row.char?, List.filterMap_replicate]

theorem filterMap_cellsOfAll (width : Nat) (s : List Char) :
    (cellsOfAll width s).filterMap Row.char? = s := by
  induction s with
  | nil => rfl
  | cons c s ih =>
    have hcons : cellsOfAll width (c :: s) =
        cellsOf c (min (cellWidth c) width) ++ cellsOfAll width s := List.flatMap_cons
    rw [hcons, List.filterMap_append, filterMap_cellsOf, ih]
    rfl

theorem flatten_map_cellsOfAll (width : Nat) (lines : List (List Char)) :
    (lines.map (cellsOfAll width)).flatten = cellsOfAll width lines.flatten := by
  induction lines with
  | nil => rfl
  | cons line lines ih => rw [List.map_cons, List.flatten_cons, ih, List.flatten_cons,
      cellsOfAll_append]

namespace IsPacking

variable {width : Nat} {s : List Char} {lines others : List (List Char)}

/-- A line that another one goes on from is not followed by a break. -/
theorem eq_of_prefix {line other : List Char}
    (h : IsPacking width s (line :: lines)) (h' : IsPacking width s (other :: others))
    (hbegins : line <+: other) : line = other := by
  obtain ⟨rest, rfl⟩ := hbegins
  cases rest with
  | nil => exact (List.append_nil line).symm
  | cons c rest =>
    have hflatten : line ++ lines.flatten = line ++ (c :: rest ++ others.flatten) := by
      rw [← List.append_assoc]
      exact h.flatten_eq.trans h'.flatten_eq.symm
    have hlines := List.append_cancel_left hflatten
    cases lines with
    | nil => cases hlines
    | cons next lines =>
      obtain ⟨⟨d, more, rfl, hbreak⟩, -⟩ := List.isChain_cons_cons.mp h.breaks
      obtain ⟨rfl, -⟩ := List.cons.inj hlines
      have hlonger : line ++ [d] <+: line ++ d :: rest := ⟨rest, by simp⟩
      have hfits := h'.fits _ List.mem_cons_self
      exact absurd (Nat.le_trans (length_cellsOfAll_le hlonger) hfits) (Nat.not_le.mpr hbreak)

theorem tail {line : List Char} (h : IsPacking width s (line :: lines)) (hne : lines ≠ []) :
    IsPacking width lines.flatten lines :=
  ⟨rfl, hne, fun other hother => h.fits other (List.mem_cons_of_mem line hother),
    h.breaks.tail⟩

/-- Lines that follow a break are not empty. -/
theorem eq_nil_of_flatten {line : List Char} (h : IsPacking width s (line :: lines))
    (hflatten : lines.flatten = []) : lines = [] := by
  cases lines with
  | nil => rfl
  | cons next lines =>
    obtain ⟨⟨c, rest, rfl, -⟩, -⟩ := List.isChain_cons_cons.mp h.breaks
    cases hflatten

/-- A text is packed in one way only. -/
theorem unique (h : IsPacking width s lines) (h' : IsPacking width s others) : lines = others := by
  induction lines generalizing s others with
  | nil => exact absurd rfl h.ne_nil
  | cons line lines ih =>
    cases others with
    | nil => exact absurd rfl h'.ne_nil
    | cons other others =>
      -- Of the two first lines one begins with the other.
      have hfirst : line = other := by
        have hline : line <+: s := ⟨lines.flatten, h.flatten_eq⟩
        have hother : other <+: s := ⟨others.flatten, h'.flatten_eq⟩
        rcases List.prefix_or_prefix_of_prefix hline hother with hbegins | hbegins
        · exact h.eq_of_prefix h' hbegins
        · exact (h'.eq_of_prefix h hbegins).symm
      subst hfirst
      have hrest : lines.flatten = others.flatten :=
        List.append_cancel_left (h.flatten_eq.trans h'.flatten_eq.symm)
      by_cases hlines : lines = []
      · subst hlines
        rw [h'.eq_nil_of_flatten hrest.symm]
      · have hothers : others ≠ [] := by
          rintro rfl
          exact hlines (h.eq_nil_of_flatten hrest)
        rw [ih (h.tail hlines) (hrest ▸ h'.tail hothers)]

variable {front : List (List Char)} {line : List Char} {c : Char}

/-- A character that fits goes to the end of the last line. -/
theorem extend (h : IsPacking width s (front ++ [line]))
    (hfits : (cellsOfAll width (line ++ [c])).length ≤ width) :
    IsPacking width (s ++ [c]) (front ++ [line ++ [c]]) := by
  obtain ⟨hfront, -, hlast⟩ := List.isChain_append.mp h.breaks
  refine ⟨?_, by simp, ?_, List.isChain_append.mpr ⟨hfront, .singleton _, ?_⟩⟩
  · rw [← h.flatten_eq]
    simp
  · intro other hother
    rcases List.mem_append.mp hother with hother | hother
    · exact h.fits other (List.mem_append_left _ hother)
    · rwa [List.mem_singleton.mp hother]
  · rintro before hbefore _ ⟨⟩
    obtain ⟨d, rest, rfl, hbreak⟩ := hlast before hbefore line rfl
    exact ⟨d, rest ++ [c], rfl, hbreak⟩

/-- A character that does not fit begins a new line. -/
theorem newLine (h : IsPacking width s (front ++ [line]))
    (hbreak : width < (cellsOfAll width (line ++ [c])).length)
    (hfits : (cellsOfAll width [c]).length ≤ width) :
    IsPacking width (s ++ [c]) (front ++ [line] ++ [[c]]) := by
  refine ⟨?_, by simp, ?_, List.isChain_append.mpr ⟨h.breaks, .singleton _, ?_⟩⟩
  · rw [← h.flatten_eq]
    simp
  · intro other hother
    rcases List.mem_append.mp hother with hother | hother
    · exact h.fits other hother
    · rwa [List.mem_singleton.mp hother]
  · intro before hbefore next hnext
    rw [List.getLast?_concat] at hbefore
    cases hbefore
    cases hnext
    exact ⟨c, [], rfl, hbreak⟩

end IsPacking

/-! ### Text of calls -/

def Call.text : Call → List Char
  | .write text => text.toList
  | .control _ | .insert _ => []

/-- The characters that calls write and that have cells. -/
def writtenText (calls : List Call) : List Char :=
  (calls.flatMap Call.text).filter (cellWidth · ≠ 0)

theorem writtenText_cons (call : Call) (calls : List Call) :
    writtenText (call :: calls) = call.text.filter (cellWidth · ≠ 0) ++ writtenText calls := by
  rw [writtenText, List.flatMap_cons, List.filter_append]
  rfl

/-! ### Characters at the end of the last row -/

namespace Page

variable {p : Page}

/-- Cells that are put where nothing is behind them come after what is there. -/
theorem AtEnd.current_place (h : p.AtEnd) {cells : Row}
    (hroom : p.column + cells.length ≤ p.width) :
    (p.place cells).current = p.current.padTo p.column ++ cells := by
  have hlength : (p.current.padTo p.column).length = p.column := by
    have hend : p.current.length ≤ p.column := h
    simp only [Row.padTo, List.length_append, List.length_replicate]
    omega
  simp only [Page.place]
  split
  · rw [Row.insert, List.take_of_length_le (Nat.le_of_eq hlength),
      List.drop_eq_nil_of_le (Nat.le_of_eq hlength), List.append_nil]
    exact List.take_of_length_le (by rw [List.length_append, hlength]; exact hroom)
  · rw [Row.overwrite, List.take_of_length_le (Nat.le_of_eq hlength),
      List.drop_eq_nil_of_le (by omega), List.append_nil]

/-- What a character adds to the rows if no cells are behind the place where it is put. -/
theorem rows_put {c : Char} (hc : cellWidth c ≠ 0)
    (h : (p.wrap (min (cellWidth c) p.width)).AtEnd) :
    let count := min (cellWidth c) p.width
    (p.put c).rows =
        (if p.column + count > p.width then p.rows ++ [cellsOf c count]
          else p.above.reverse ++ [p.current.padTo p.column ++ cellsOf c count]) ∧
      (p.put c).column = (if p.column + count > p.width then 0 else p.column) + count := by
  intro count
  have hlength : (cellsOf c count).length = count := length_cellsOf (p.min_cellWidth_pos hc)
  have hroom : (p.wrap count).column + (cellsOf c count).length ≤ (p.wrap count).width := by
    rw [hlength, width_wrap]
    exact p.column_wrap_le (Nat.min_le_right _ _)
  have hcurrent := h.current_place hroom
  have hrows : ((p.wrap count).place (cellsOf c count)).rows =
      (p.wrap count).above.reverse ++ [((p.wrap count).place (cellsOf c count)).current] := rfl
  rw [p.put_of_pos hc, hrows, hcurrent, column_place, hlength]
  by_cases hwrap : p.column + count > p.width
  · have hnext : p.wrap count = { p.lineFeed with column := 0 } := if_pos hwrap
    rw [hnext, if_pos hwrap, if_pos hwrap]
    exact ⟨by simp [lineFeed, rows, Row.padTo], rfl⟩
  · have hsame : p.wrap count = p := if_neg hwrap
    rw [hsame, if_neg hwrap, if_neg hwrap]
    exact ⟨rfl, rfl⟩

/-! ### Text that is packed on a page -/

/-- The rows of a page are the lines into which a text is packed, and the cursor is at the end of
the last one. -/
structure Packed (p : Page) (s : List Char) (lines : List (List Char)) : Prop where
  packing : IsPacking p.width s lines
  rows_eq : p.rows = lines.map (cellsOfAll p.width)
  column_eq : p.column = p.current.length

namespace Packed

variable {s : List Char} {lines : List (List Char)}

/-- A character is packed behind the text that is there. -/
theorem put (h : p.Packed s lines) {c : Char} (hc : cellWidth c ≠ 0) :
    ∃ more, (p.put c).Packed (s ++ [c]) more := by
  obtain ⟨hpacking, hrows, hcolumn⟩ := h
  have hend : p.AtEnd := Nat.le_of_eq hcolumn.symm
  obtain ⟨hput, hcolumn'⟩ := rows_put hc (hend.wrap _)
  generalize hcount : min (cellWidth c) p.width = count at hput hcolumn'
  have hcells : cellsOfAll p.width [c] = cellsOf c count := by rw [cellsOfAll_singleton, hcount]
  have hlength : (cellsOf c count).length = count :=
    hcount ▸ length_cellsOf (p.min_cellWidth_pos hc)
  -- The last line is the one in the row of the cursor.
  obtain hnil | ⟨front, line, rfl⟩ := List.eq_nil_or_concat' lines
  · exact absurd hnil hpacking.ne_nil
  rw [List.map_append, rows] at hrows
  obtain ⟨habove, hcurrent⟩ := List.append_inj' hrows rfl
  have hcurrent : p.current = cellsOfAll p.width line := (List.cons.inj hcurrent).1
  have hextended : (cellsOfAll p.width (line ++ [c])).length = p.column + count := by
    rw [cellsOfAll_append, List.length_append, ← hcurrent, ← hcolumn, hcells, hlength]
  have hlast : ∀ rows row, (p.put c).rows = rows ++ [row] → (p.put c).current = row := by
    intro rows row heq
    exact (List.cons.inj (List.append_inj' heq rfl).2).1
  by_cases hwrap : p.column + count > p.width
  · rw [if_pos hwrap] at hput hcolumn'
    refine ⟨front ++ [line] ++ [[c]], ?_, ?_, ?_⟩
    · rw [width_put]
      refine hpacking.newLine (hextended ▸ hwrap) ?_
      rw [hcells, hlength, ← hcount]
      exact Nat.min_le_right _ _
    · rw [width_put, List.map_append, List.map_append, ← hrows, hput, rows]
      simp [hcells]
    · rw [hcolumn', hlast _ _ hput, hlength, Nat.zero_add]
  · rw [if_neg hwrap] at hput hcolumn'
    have hpad : p.current.padTo p.column = p.current := by
      rw [Row.padTo, hcolumn, Nat.sub_self]
      exact List.append_nil _
    rw [hpad] at hput
    refine ⟨front ++ [line ++ [c]], ?_, ?_, ?_⟩
    · rw [width_put]
      exact hpacking.extend (by omega)
    · rw [width_put, hput, List.map_append, habove, List.map_singleton, cellsOfAll_append, hcells,
        hcurrent]
    · rw [hcolumn', hlast _ _ hput, List.length_append, hlength, hcolumn]

theorem putAll (h : p.Packed s lines) (t : List Char) :
    ∃ more, (p.putAll t).Packed (s ++ t.filter (cellWidth · ≠ 0)) more := by
  induction t generalizing p s lines with
  | nil => exact ⟨lines, by rwa [List.filter_nil, List.append_nil]⟩
  | cons c t ih =>
    have hcons : p.putAll (c :: t) = (p.put c).putAll t := rfl
    rw [hcons]
    by_cases hc : cellWidth c = 0
    · rw [p.put_of_zero hc, List.filter_cons_of_neg (by simpa using hc)]
      exact ih h
    · obtain ⟨next, hnext⟩ := h.put hc
      rw [List.filter_cons_of_pos (by simpa using hc), List.append_cons]
      exact ih hnext

theorem recordText (h : p.Packed s lines) (text : String) : (p.recordText text).Packed s lines := by
  unfold Page.recordText
  split <;> exact ⟨h.packing, h.rows_eq, h.column_eq⟩

/-- Further text is packed behind the text that is there. -/
theorem replay (h : p.Packed s lines) {calls : List Call} (hcalls : ∀ c, .control c ∉ calls) :
    ∃ more, (replay calls p).Packed (s ++ writtenText calls) more := by
  induction calls generalizing p s lines with
  | nil => exact ⟨lines, by rwa [writtenText, List.flatMap_nil, List.filter_nil, List.append_nil]⟩
  | cons call calls ih =>
    have hrest : ∀ c, .control c ∉ calls := fun c hc => hcalls c (List.mem_cons_of_mem call hc)
    cases call with
    | write text =>
      obtain ⟨next, hnext⟩ := h.putAll text.toList
      rw [writtenText_cons, ← List.append_assoc]
      exact ih (hnext.recordText text) hrest
    | control c => exact absurd List.mem_cons_self (hcalls c)
    | insert enabled =>
      have hsame : (p.setInsertMode enabled).Packed s lines := ⟨h.packing, h.rows_eq, h.column_eq⟩
      exact ih hsame hrest

end Packed

theorem getLast?_rows (p : Page) : p.rows.getLast? = some p.current := by
  rw [rows, List.getLast?_concat]

/-- Pages of one width that a text is packed on agree in their rows and their cursor. -/
theorem Packed.unique {q : Page} {s : List Char} {lines others : List (List Char)}
    (h : p.Packed s lines) (h' : q.Packed s others) (hwidth : q.width = p.width) :
    q.rows = p.rows ∧ q.row = p.row ∧ q.column = p.column := by
  obtain ⟨hpacking, hrows, hcolumn⟩ := h
  obtain ⟨hpacking', hrows', hcolumn'⟩ := h'
  rw [hwidth] at hpacking' hrows'
  have hequal : q.rows = p.rows := by rw [hrows, hrows', hpacking'.unique hpacking]
  refine ⟨hequal, ?_, ?_⟩
  · have hlength := congrArg List.length hequal
    rw [length_rows, length_rows] at hlength
    exact Nat.succ.inj hlength
  · have hlast := congrArg List.getLast? hequal
    rw [getLast?_rows, getLast?_rows] at hlast
    rw [hcolumn, hcolumn', Option.some.inj hlast]

theorem packed_empty (width : Nat) : (empty width).Packed [] [[]] where
  packing := ⟨rfl, List.cons_ne_nil _ _, by simp [cellsOfAll], .singleton _⟩
  rows_eq := rfl
  column_eq := rfl

/-- Without control characters, an empty page has as its rows the lines into which the written text
is packed, each character with its cells, and the cursor is at the end of the last row. How the text
was divided and whether it was inserted makes no difference. -/
theorem packing_replay (width : Nat) {calls : List Call} (hcalls : ∀ c, .control c ∉ calls) :
    let p := replay calls (empty width)
    let s := writtenText calls
    p.width = max width 1 ∧
    (∃ lines, IsPacking p.width s lines ∧ (∀ others, IsPacking p.width s others → others = lines) ∧
      p.rows = lines.map (cellsOfAll p.width)) ∧
    (∀ row ∈ p.rows, row.length ≤ p.width) ∧
    p.rows.flatten.filterMap Row.char? = s ∧
    (p.row + 1 = p.rows.length ∧ p.rows.getLast? = some p.current ∧
      p.column = p.current.length) ∧
    ∀ {more : List Call}, (∀ c, .control c ∉ more) → writtenText more = s →
      let q := replay more (empty width)
      q.rows = p.rows ∧ q.row = p.row ∧ q.column = p.column := by
  intro p s
  obtain ⟨lines, hlines⟩ := (packed_empty width).replay hcalls
  have hwidth : p.width = max width 1 := width_replay calls (empty width)
  have hfits : p.Fits := (Fits.empty width).replay calls
  refine ⟨hwidth, ⟨lines, hlines.packing, fun others hothers => hothers.unique hlines.packing,
    hlines.rows_eq⟩, ?_, ?_, ⟨p.length_rows.symm, p.getLast?_rows, hlines.column_eq⟩, ?_⟩
  · intro row hrow
    obtain ⟨i, hi⟩ := List.mem_iff_getElem?.mp hrow
    exact hfits.rows i row hi
  · rw [hlines.rows_eq, flatten_map_cellsOfAll, filterMap_cellsOfAll]
    exact hlines.packing.flatten_eq
  · intro more hmore htext q
    obtain ⟨others, hothers⟩ := (packed_empty width).replay hmore
    rw [htext] at hothers
    exact hlines.unique hothers ((width_replay more (empty width)).trans hwidth.symm)

/-- A wide character that does not fit, and a character without a cell of its own. -/
theorem packing_replay_wide :
    let calls := [.write "ab世", .insert true, .write "c\u0301de"]
    let more := [.write "ab", .write "世cde"]
    let p := replay calls (empty 3)
    (∀ c, .control c ∉ calls) ∧ (∀ c, .control c ∉ more) ∧
      writtenText calls = "ab世cde".toList ∧ writtenText more = "ab世cde".toList ∧
      IsPacking 3 "ab世cde".toList ["ab".toList, "世c".toList, "de".toList] ∧
      p.rows = ["ab".toList, "世c".toList, "de".toList].map (cellsOfAll 3) ∧
      p.rows.flatten.filterMap Row.char? = "ab世cde".toList ∧ p.column = p.current.length ∧
      (replay more (empty 3)).rows = p.rows := by
  intro calls more p
  have hcalls : ∀ c, .control c ∉ calls := by simp [calls]
  have hmore : ∀ c, .control c ∉ more := by simp [more]
  have htext : writtenText calls = "ab世cde".toList := by decide +kernel
  have htext' : writtenText more = "ab世cde".toList := by decide +kernel
  have hlines : IsPacking 3 "ab世cde".toList ["ab".toList, "世c".toList, "de".toList] :=
    ⟨rfl, List.cons_ne_nil _ _, by decide +kernel,
      .cons_cons ⟨'世', ['c'], rfl, by decide +kernel⟩
        (.cons_cons ⟨'d', ['e'], rfl, by decide +kernel⟩ (.singleton _))⟩
  obtain ⟨hwidth, ⟨lines, -, hunique, hrows⟩, -, hflatten, ⟨-, -, hcolumn⟩, hsame⟩ :=
    packing_replay 3 hcalls
  rw [htext, hwidth] at hunique
  rw [hwidth] at hrows
  have hpacked := hunique _ hlines
  subst hpacked
  exact ⟨hcalls, hmore, htext, htext', hlines, hrows, hflatten.trans htext, hcolumn,
    (hsame hmore (htext'.trans htext.symm)).1⟩

end Page

end ControlStream
