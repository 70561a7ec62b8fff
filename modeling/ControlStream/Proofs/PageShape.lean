import Mathlib.Data.List.Induction
import ControlStream.Proofs.Calls

/-!
# The shape of a page

A page can also be kept as a grid of characters in which the cursor has a row of its own accord. On
such a grid replacing cells, going to a row and counting cells back may fail. On a page they never
do: its rows fit its width, its last row is that of the cursor, and the rows above that one are
final.

## Main definitions

* `Grid`: rows of characters, with NUL for the further cells of wide characters.
* `Grid.put?`, `Grid.call?`, `Grid.run?`: what a page does, with a check wherever it could fail.
* `Page.grid`: a page as a grid.
* `Page.EachRow`: what is true of every row of a page.
* `Page.Fits`: rows and cursor are within the width.
* `Page.WrittenIn`, `Page.Accounted`: a character was put in a row; every cell belongs to one.

## Main statements

* `Page.call?_grid`: on a page no check fails.
* `Page.replay_induction`: what the parts of a call preserve holds after any calls.
* `Page.EachRow.put`: a character only changes the row it is put in.
* `Page.Fits.replay`: rows and cursor stay within the width.
* `Page.above_suffix_replay`: the rows above the cursor stay as they are.
* `Page.accounted_replay`: every cell is a blank or a part of a character that was written.
* `Page.shape_replay`: the shape of a page after any calls.
-/

namespace ControlStream

/-! ### Grids -/

def sub? (n k : Nat) : Option Nat := if k ≤ n then some (n - k) else none

/-- Replace the elements from `start` to `stop`, if these are places in the list and in order. -/
def splice? {α : Type} (l : List α) (start stop : Nat) (new : List α) : Option (List α) :=
  if start ≤ stop ∧ stop ≤ l.length then some (l.take start ++ new ++ l.drop stop) else none

structure Grid where
  width : Nat
  rows : List (List Char)
  /-- The row of the cursor. Nothing says that it is one of the rows. -/
  row : Nat
  column : Nat
  inserting : Bool
  bells : Nat
  deriving DecidableEq, Repr

namespace Grid

def empty (width : Nat) : Grid := ⟨max width 1, [[]], 0, 0, false, 0⟩

def reach (g : Grid) : Grid :=
  { g with rows := g.rows ++ List.replicate (g.row + 1 - g.rows.length) [] }

def wrap (g : Grid) (width : Nat) : Grid :=
  if g.column + width > g.width then { g with row := g.row + 1, column := 0 } else g

def fill? (g : Grid) (row cells : List Char) : Option (List Char) :=
  let row := row ++ List.replicate (g.column - row.length) ' '
  if g.inserting then (splice? row g.column g.column cells).map (·.take g.width)
  else splice? row g.column (min (g.column + cells.length) row.length) cells

def place? (g : Grid) (cells : List Char) : Option Grid := do
  let row ← g.rows[g.row]?
  let row ← g.fill? row cells
  return { g with rows := g.rows.set g.row row, column := g.column + cells.length }

def put? (g : Grid) (c : Char) : Option Grid :=
  if cellWidth c = 0 then some g
  else do
    let width := min (cellWidth c) g.width
    let spacers ← sub? width 1
    (g.wrap width).reach.place? (c :: List.replicate spacers ControlChar.nul)

def control? (g : Grid) (c : Char) : Option Grid :=
  if c = ControlChar.cr then some { g with column := 0 }
  else if c = ControlChar.lf ∨ c = ControlChar.vt ∨ c = ControlChar.ff then
    some { g with row := g.row + 1 }.reach
  else if c = ControlChar.bs then some { g with column := g.column - 1 }
  else if c = ControlChar.tab then do
    let last ← sub? g.width 1
    return { g with column := min ((g.column / Page.tabWidth + 1) * Page.tabWidth) last }
  else if c = ControlChar.bel then some { g with bells := g.bells + 1 }
  else some g

/-- Make a call, unless a check fails. -/
def call? (g : Grid) : Call → Option Grid
  | .write text => text.toList.foldlM put? g
  | .control c => g.control? c
  | .insert enabled => some { g with inserting := enabled }

def run? (calls : List Call) (g : Grid) : Option Grid := calls.foldlM call? g

def line (g : Grid) (i : Nat) : String :=
  match g.rows[i]? with
  | some row => String.ofList (dropTrailingBlanks (row.filter (· ≠ ControlChar.nul)))
  | none => ""

end Grid

theorem Row.le_length_padTo (row : Row) (n : Nat) : n ≤ (row.padTo n).length := by
  simp only [padTo, List.length_append, List.length_replicate]
  omega

/-! ### A page is a grid on which no check fails -/

def Cell.code : Cell → Char
  | .glyph c => c
  | .spacer => ControlChar.nul

namespace Page

def grid (p : Page) : Grid :=
  ⟨p.width, p.rows.map (·.map Cell.code), p.row, p.column, p.inserting, p.bells⟩

@[simp] theorem width_grid (p : Page) : p.grid.width = p.width := rfl

@[simp] theorem row_grid (p : Page) : p.grid.row = p.row := rfl

@[simp] theorem column_grid (p : Page) : p.grid.column = p.column := rfl

@[simp] theorem inserting_grid (p : Page) : p.grid.inserting = p.inserting := rfl

theorem getElem?_rows_grid (p : Page) : p.grid.rows[p.row]? = some (p.current.map Cell.code) := by
  simp [grid, rows, row]

theorem reach_grid (p : Page) : p.grid.reach = p.grid := by
  simp [Grid.reach, grid]

/-- The row the cursor comes to is new and empty. -/
theorem reach_next (p : Page) (column : Nat) :
    ({ p.grid with row := p.row + 1, column } : Grid).reach = { p.lineFeed with column }.grid := by
  simp [Grid.reach, grid, rows, row, lineFeed]

theorem reach_wrap_grid (p : Page) (width : Nat) :
    (p.grid.wrap width).reach = (p.wrap width).grid := by
  unfold Grid.wrap wrap
  rw [column_grid, width_grid]
  split
  · exact p.reach_next 0
  · exact p.reach_grid

theorem map_code_padTo (row : Row) (n : Nat) :
    (row.padTo n).map Cell.code =
      row.map Cell.code ++ List.replicate (n - (row.map Cell.code).length) ' ' := by
  simp [Row.padTo, Cell.code]

/-- Cells replace a range of the row, which ends with the row at the latest, or are put in front of
a place in it. -/
theorem fill?_grid (p : Page) (cells : Row) :
    p.grid.fill? (p.current.map Cell.code) (cells.map Cell.code) =
      some ((p.place cells).current.map Cell.code) := by
  have hcolumn := p.current.le_length_padTo p.column
  unfold Grid.fill?
  simp only [column_grid, inserting_grid, width_grid, ← map_code_padTo]
  split
  · rename_i hmode
    rw [splice?, if_pos (by simp; omega)]
    simp [place, hmode, Row.insert]
  · rename_i hmode
    rw [splice?, if_pos (by simp; omega)]
    simp [place, hmode, Row.overwrite, List.drop_eq_drop_iff]

theorem place?_grid (p : Page) (cells : Row) :
    p.grid.place? (cells.map Cell.code) = some (p.place cells).grid := by
  unfold Grid.place?
  rw [row_grid, getElem?_rows_grid, Option.bind_eq_bind, Option.bind_some, fill?_grid]
  simp [grid, rows, row, place]

/-- A character that has cells has at least one on a page. -/
theorem min_cellWidth_pos (p : Page) {c : Char} (hc : cellWidth c ≠ 0) :
    0 < min (cellWidth c) p.width := by
  have hpos := p.width_pos
  omega

theorem put_of_pos (p : Page) {c : Char} (hc : cellWidth c ≠ 0) :
    p.put c =
      (p.wrap (min (cellWidth c) p.width)).place (cellsOf c (min (cellWidth c) p.width)) := by
  have hpos := p.min_cellWidth_pos hc
  unfold put
  split
  · omega
  · rfl

theorem put_of_zero (p : Page) {c : Char} (hc : cellWidth c = 0) : p.put c = p := by
  simp [put, hc]

theorem put?_grid (p : Page) (c : Char) : p.grid.put? c = some (p.put c).grid := by
  unfold Grid.put?
  split
  · rw [p.put_of_zero ‹_›]
  · rename_i hc
    have hspacers : sub? (min (cellWidth c) p.width) 1 = some (min (cellWidth c) p.width - 1) :=
      if_pos (p.min_cellWidth_pos hc)
    have hcells : (cellsOf c (min (cellWidth c) p.width)).map Cell.code =
        c :: List.replicate (min (cellWidth c) p.width - 1) ControlChar.nul := by
      simp [cellsOf, Cell.code]
    simp only [width_grid, hspacers, Option.bind_eq_bind, Option.bind_some]
    rw [reach_wrap_grid, ← hcells, place?_grid, p.put_of_pos hc]

theorem putAll?_grid (p : Page) (s : List Char) :
    s.foldlM Grid.put? p.grid = some (p.putAll s).grid := by
  induction s generalizing p with
  | nil => rfl
  | cons c s ih =>
    rw [List.foldlM_cons, put?_grid]
    exact ih (p.put c)

theorem control?_grid (p : Page) (c : Char) : p.grid.control? c = some (p.control c).grid := by
  unfold Grid.control? control
  have hlast : sub? p.grid.width 1 = some (p.width - 1) := if_pos p.width_pos
  rw [hlast]
  split
  · rfl
  · split
    · exact congrArg some (p.reach_next p.column)
    · repeat' split
      all_goals rfl

theorem grid_recordText (p : Page) (s : String) : (p.recordText s).grid = p.grid := by
  unfold recordText
  split <;> rfl

/-- On a page no check fails. -/
theorem call?_grid (p : Page) (call : Call) : p.grid.call? call = some (call.on p).grid := by
  cases call with
  | write text =>
    refine (p.putAll?_grid text.toList).trans ?_
    change some (p.putAll text.toList).grid = some ((p.putAll text.toList).recordText text).grid
    rw [grid_recordText]
  | control c => exact p.control?_grid c
  | insert enabled => rfl

theorem run?_grid (p : Page) (calls : List Call) :
    p.grid.run? calls = some (replay calls p).grid := by
  induction calls generalizing p with
  | nil => rfl
  | cons call calls ih =>
    rw [Grid.run?, List.foldlM_cons, call?_grid]
    exact ih (call.on p)

theorem rows_recordText (p : Page) (s : String) : (p.recordText s).rows = p.rows := by
  unfold recordText
  split <;> rfl

/-- What holds of a page still does after any calls, if neither characters that are laid out nor
control characters nor the insert mode make a difference to it, and the record does not matter. -/
theorem replay_induction {I : Page → Prop} (hput : ∀ p c, I p → I (p.put c))
    (hrecord : ∀ p s, I p → I (p.recordText s)) (hcontrol : ∀ p c, I p → I (p.control c))
    (hinsert : ∀ p enabled, I p → I (p.setInsertMode enabled)) {p : Page} (hp : I p)
    (calls : List Call) : I (replay calls p) := by
  have hputAll : ∀ s p, I p → I (p.putAll s) := by
    intro s
    induction s with
    | nil => exact fun _ hp => hp
    | cons c s ih => exact fun p hp => ih (p.put c) (hput p c hp)
  induction calls generalizing p with
  | nil => exact hp
  | cons call calls ih =>
    refine ih ?_
    cases call with
    | write text => exact hrecord _ text (hputAll text.toList p hp)
    | control c => exact hcontrol p c hp
    | insert enabled => exact hinsert p enabled hp

/-! ### What is true of every row -/

/-- Every row has a property, which may depend on its number. -/
def EachRow (P : Nat → Row → Prop) (p : Page) : Prop := ∀ i row, p.rows[i]? = some row → P i row

section EachRow

variable {P : Nat → Row → Prop} {p : Page}

theorem getElem?_rows {i : Nat} {row : Row} :
    p.rows[i]? = some row ↔
      p.above.reverse[i]? = some row ∨ i = p.row ∧ row = p.current := by
  rw [rows, Page.row, ← List.length_reverse]
  by_cases hi : i < p.above.reverse.length
  · rw [List.getElem?_append_left hi]
    exact ⟨.inl, fun h => h.resolve_right fun h => absurd h.1 (Nat.ne_of_lt hi)⟩
  · rw [List.getElem?_append_right (Nat.le_of_not_lt hi)]
    grind

theorem eachRow_iff :
    p.EachRow P ↔ (∀ i row, p.above.reverse[i]? = some row → P i row) ∧ P p.row p.current := by
  simp only [EachRow, getElem?_rows]
  constructor
  · intro h
    exact ⟨fun i row hrow => h i row (.inl hrow), h _ _ (.inr ⟨rfl, rfl⟩)⟩
  · rintro ⟨habove, hcurrent⟩ i row (hrow | ⟨rfl, rfl⟩)
    · exact habove i row hrow
    · exact hcurrent

theorem EachRow.mono {Q : Nat → Row → Prop} (h : p.EachRow P)
    (hPQ : ∀ i row, P i row → Q i row) : p.EachRow Q := fun i row hrow => hPQ i row (h i row hrow)

theorem EachRow.lineFeed (h : p.EachRow P) (hnew : ∀ i, P i []) : p.lineFeed.EachRow P := by
  refine eachRow_iff.mpr ⟨?_, hnew _⟩
  rw [Page.lineFeed, List.reverse_cons]
  exact h

theorem EachRow.wrap (h : p.EachRow P) (hnew : ∀ i, P i []) (width : Nat) :
    (p.wrap width).EachRow P := by
  unfold Page.wrap
  split
  · exact h.lineFeed hnew
  · exact h

/-- Cells that are put on a page only change the row of the cursor. -/
theorem EachRow.place (h : p.EachRow P) {cells : Row}
    (hcells : P p.row p.current → P p.row (p.place cells).current) : (p.place cells).EachRow P := by
  rw [eachRow_iff] at h ⊢
  exact ⟨h.1, hcells h.2⟩

/-- A character only changes the row it is put in. -/
theorem EachRow.put (h : p.EachRow P) (hnew : ∀ i, P i []) {c : Char}
    (hcells : ∀ q : Page, q = p.wrap (min (cellWidth c) p.width) → cellWidth c ≠ 0 →
      P q.row q.current →
        P q.row (q.place (cellsOf c (min (cellWidth c) p.width))).current) :
    (p.put c).EachRow P := by
  by_cases hc : cellWidth c = 0
  · rw [p.put_of_zero hc]
    exact h
  · rw [p.put_of_pos hc]
    exact (h.wrap hnew _).place (hcells _ rfl hc)

/-- A control character adds rows at most. -/
theorem EachRow.control (h : p.EachRow P) (hnew : ∀ i, P i []) (c : Char) :
    (p.control c).EachRow P := by
  unfold Page.control
  repeat' split
  all_goals first | exact h | exact h.lineFeed hnew

end EachRow

/-! ### Rows and cursor within the width -/

@[simp] theorem width_wrap (p : Page) (n : Nat) : (p.wrap n).width = p.width := by
  unfold wrap
  split <;> rfl

@[simp] theorem width_put (p : Page) (c : Char) : (p.put c).width = p.width := by
  by_cases hc : cellWidth c = 0
  · rw [p.put_of_zero hc]
  · rw [p.put_of_pos hc]
    exact p.width_wrap _

@[simp] theorem width_putAll (p : Page) (s : List Char) : (p.putAll s).width = p.width := by
  induction s generalizing p with
  | nil => rfl
  | cons c s ih => exact (ih (p.put c)).trans (p.width_put c)

@[simp] theorem width_on (p : Page) (call : Call) : (call.on p).width = p.width := by
  cases call with
  | write text =>
    have hlayout : (p.write text).layout.width = p.width := by
      rw [layout_write, width_putAll, width_layout]
    exact hlayout
  | control c =>
    change (p.control c).width = p.width
    unfold control
    repeat' split
    all_goals rfl
  | insert enabled => rfl

/-- The width of a page is for good. -/
@[simp] theorem width_replay (calls : List Call) (p : Page) : (replay calls p).width = p.width := by
  induction calls generalizing p with
  | nil => rfl
  | cons call calls ih => exact (ih (call.on p)).trans (p.width_on call)

/-- Rows and cursor are within the width. The cursor may be behind the last cell. -/
structure Fits (p : Page) : Prop where
  column : p.column ≤ p.width
  rows : p.EachRow fun _ row => row.length ≤ p.width

/-- There is room for a character where it is put. -/
theorem column_wrap_le (p : Page) {n : Nat} (hn : n ≤ p.width) :
    (p.wrap n).column + n ≤ p.width := by
  unfold wrap
  split
  · simpa using hn
  · omega

theorem length_cellsOf {c : Char} {n : Nat} (hn : 0 < n) : (cellsOf c n).length = n := by
  simp only [cellsOf, List.length_cons, List.length_replicate]
  omega

@[simp] theorem column_place (p : Page) (cells : Row) :
    (p.place cells).column = p.column + cells.length := rfl

theorem length_place_le (p : Page) (cells : Row) :
    (p.place cells).current.length ≤
      max p.width (max p.current.length (p.column + cells.length)) := by
  simp only [place]
  split
  · simp only [Row.insert, List.length_take]
    omega
  · simp only [Row.overwrite, Row.padTo, List.length_append, List.length_take, List.length_drop,
      List.length_replicate]
    omega

namespace Fits

variable {p : Page}

theorem empty (width : Nat) : (Page.empty width).Fits := by
  refine ⟨Nat.zero_le _, eachRow_iff.mpr ⟨?_, Nat.zero_le _⟩⟩
  intro i row hrow
  simp [Page.empty] at hrow

theorem put (h : p.Fits) (c : Char) : (p.put c).Fits := by
  by_cases hc : cellWidth c = 0
  · rw [p.put_of_zero hc]
    exact h
  · have hroom := p.column_wrap_le (Nat.min_le_right (cellWidth c) p.width)
    constructor
    · rw [width_put, p.put_of_pos hc, column_place, length_cellsOf (p.min_cellWidth_pos hc)]
      exact hroom
    · rw [width_put]
      refine h.rows.put (fun _ => Nat.zero_le _) ?_
      rintro q rfl - hrow
      have hcells := length_place_le (p.wrap (min (cellWidth c) p.width))
        (cellsOf c (min (cellWidth c) p.width))
      rw [length_cellsOf (p.min_cellWidth_pos hc), width_wrap] at hcells
      omega

theorem control (h : p.Fits) (c : Char) : (p.control c).Fits := by
  have hwidth : (p.control c).width = p.width := p.width_on (.control c)
  constructor
  · have hcolumn := h.column
    unfold Page.control
    repeat' split
    all_goals simp only [tab, lineFeed, hcolumn]; try omega
  · rw [hwidth]
    exact h.rows.control (fun _ => Nat.zero_le _) c

theorem recordText (h : p.Fits) (s : String) : (p.recordText s).Fits := by
  unfold Page.recordText
  split
  · exact ⟨h.column, h.rows⟩
  · exact h

/-- Whatever the calls, rows and cursor stay within the width. -/
theorem replay (h : p.Fits) (calls : List Call) : (replay calls p).Fits :=
  replay_induction (fun _ c h => h.put c) (fun _ s h => h.recordText s)
    (fun _ c h => h.control c) (fun _ _ h => ⟨h.column, h.rows⟩) h calls

end Fits

/-! ### Rows above the cursor -/

theorem above_suffix_put (p : Page) (c : Char) : p.above <:+ (p.put c).above := by
  by_cases hc : cellWidth c = 0
  · simp [p.put_of_zero hc]
  · rw [p.put_of_pos hc]
    change p.above <:+ (p.wrap _).above
    unfold wrap
    split
    · exact List.suffix_cons _ _
    · exact List.suffix_refl _

theorem above_suffix_control (p : Page) (c : Char) : p.above <:+ (p.control c).above := by
  unfold control
  repeat' split
  all_goals first | exact List.suffix_refl _ | exact List.suffix_cons _ _

theorem above_recordText (p : Page) (s : String) : (p.recordText s).above = p.above := by
  unfold recordText
  split <;> rfl

/-- No call changes the rows above the cursor. -/
theorem above_suffix_replay (p : Page) (calls : List Call) :
    p.above <:+ (replay calls p).above := by
  refine replay_induction (I := fun q => p.above <:+ q.above) ?_ ?_ ?_ (fun _ _ h => h)
    (List.suffix_refl _) calls
  · exact fun q c h => h.trans (q.above_suffix_put c)
  · intro q s h
    rw [above_recordText]
    exact h
  · exact fun q c h => h.trans (q.above_suffix_control c)

/-- The rows above the cursor stay, and the cursor never comes back to them. -/
theorem take_rows_prefix_replay (p : Page) (calls : List Call) :
    p.rows.take p.row <+: (replay calls p).rows ∧ p.row ≤ (replay calls p).row := by
  have hsuffix := p.above_suffix_replay calls
  have htake : p.rows.take p.row = p.above.reverse :=
    List.take_left' List.length_reverse
  rw [htake]
  exact ⟨(List.reverse_prefix.mpr hsuffix).trans (List.prefix_append _ _), hsuffix.length_le⟩

/-! ### Where cells come from -/

/-- After some calls to an empty page, a character that has cells was put in a row. -/
def WrittenIn (width : Nat) (calls : List Call) (i : Nat) (c : Char) : Prop :=
  cellWidth c ≠ 0 ∧ ∃ before text after s rest,
    calls = before ++ .write text :: after ∧ text.toList = s ++ c :: rest ∧
      (((replay before (empty width)).putAll s).put c).row = i

theorem WrittenIn.append {width : Nat} {calls : List Call} {i : Nat} {c : Char}
    (h : WrittenIn width calls i c) (more : List Call) : WrittenIn width (calls ++ more) i c := by
  obtain ⟨hc, before, text, after, s, rest, rfl, htext, hrow⟩ := h
  exact ⟨hc, before, text, after ++ more, s, rest, by simp, htext, hrow⟩

/-- A cell is blank or belongs to a character that was put in its row. -/
def Accounted (width : Nat) (calls : List Call) (i : Nat) (row : Row) : Prop :=
  ∀ cell ∈ row, cell = .glyph ' ' ∨
    ∃ c, WrittenIn width calls i c ∧ cell ∈ cellsOf c (min (cellWidth c) (max width 1))

theorem accounted_nil {width : Nat} {calls : List Call} (i : Nat) : Accounted width calls i [] :=
  List.forall_mem_nil _

theorem mem_place {p : Page} {cells : Row} {cell : Cell} (h : cell ∈ (p.place cells).current) :
    cell = .glyph ' ' ∨ cell ∈ p.current ∨ cell ∈ cells := by
  have hpad : ∀ cell ∈ p.current.padTo p.column, cell = .glyph ' ' ∨ cell ∈ p.current := by
    intro cell hcell
    rw [Row.padTo, List.mem_append, List.mem_replicate] at hcell
    exact hcell.symm.imp_left And.right
  obtain ⟨stop, hmem⟩ : ∃ stop, cell ∈ (p.current.padTo p.column).take p.column ++ cells ++
      (p.current.padTo p.column).drop stop := by
    simp only [place] at h
    split at h
    · exact ⟨_, List.mem_of_mem_take h⟩
    · exact ⟨_, h⟩
  simp only [List.mem_append] at hmem
  rcases hmem with (hmem | hmem) | hmem
  · exact (hpad cell (List.mem_of_mem_take hmem)).imp_right .inl
  · exact .inr (.inr hmem)
  · exact (hpad cell (List.mem_of_mem_drop hmem)).imp_right .inl

/-- A character that is put on a page accounts for its cells. -/
theorem accounted_putAll {width : Nat} {calls : List Call} {text : String}
    (h : (replay calls (empty width)).EachRow (Accounted width (calls ++ [.write text])))
    {s rest : List Char} (htext : text.toList = s ++ rest) :
    ((replay calls (empty width)).putAll s).EachRow (Accounted width (calls ++ [.write text])) := by
  induction s using List.reverseRecOn generalizing rest with
  | nil => exact h
  | append_singleton s c ih =>
    rw [List.append_assoc] at htext
    rw [putAll, List.foldl_append]
    refine (ih htext).put accounted_nil ?_
    intro q hq hc hrow cell hcell
    rcases mem_place hcell with hblank | hold | hnew
    · exact .inl hblank
    · exact hrow cell hold
    · refine .inr ⟨c, ⟨hc, calls, text, [], s, rest, rfl, htext, ?_⟩, ?_⟩
      · rw [put_of_pos _ hc, hq]
        rfl
      · rw [width_putAll, width_replay] at hnew
        exact hnew

/-- Every cell is a blank or a part of a character that was put in its row. -/
theorem accounted_replay (width : Nat) (calls : List Call) :
    (replay calls (empty width)).EachRow (Accounted width calls) := by
  -- The induction goes from the first call to the last, since later calls only ever add to the
  -- characters that were written.
  induction calls using List.reverseRecOn with
  | nil =>
    refine eachRow_iff.mpr ⟨?_, accounted_nil _⟩
    intro i row hrow
    simp [replay, Page.empty] at hrow
  | append_singleton calls call ih =>
    have hadded : (replay calls (empty width)).EachRow (Accounted width (calls ++ [call])) :=
      ih.mono fun _ _ h cell hcell =>
        (h cell hcell).imp_right (Exists.imp fun _ => And.imp_left (·.append _))
    rw [replay_append]
    cases call with
    | write text =>
      have hput := accounted_putAll hadded (List.append_nil text.toList).symm
      unfold EachRow at hput ⊢
      rwa [← rows_recordText _ text] at hput
    | control c => exact hadded.control accounted_nil c
    | insert enabled => exact hadded

/-- NUL has no cells, so in a grid it is only seen where a wide character goes on. -/
theorem Accounted.spacer_of_code {width : Nat} {calls : List Call} {i : Nat} {row : Row}
    (h : Accounted width calls i row) {cell : Cell} (hcell : cell ∈ row)
    (hcode : cell.code = ControlChar.nul) :
    cell = .spacer ∧ ∃ c, WrittenIn width calls i c ∧ 2 ≤ min (cellWidth c) (max width 1) := by
  rcases h cell hcell with rfl | ⟨c, hc, hmem⟩
  · cases hcode
  · rcases List.mem_cons.mp hmem with rfl | hspacer
    · have hnul : c = ControlChar.nul := hcode
      exact absurd (hnul ▸ hc.1) (by decide)
    · obtain ⟨hcount, rfl⟩ := List.mem_replicate.mp hspacer
      exact ⟨rfl, c, hc, by omega⟩

theorem filter_code {row : Row} (h : ∀ cell ∈ row, cell.code = ControlChar.nul → cell = .spacer) :
    (row.map Cell.code).filter (· ≠ ControlChar.nul) = row.filterMap Row.char? := by
  induction row with
  | nil => rfl
  | cons cell row ih =>
    have hcell := h cell List.mem_cons_self
    have hrow := ih fun cell hmem => h cell (List.mem_cons_of_mem _ hmem)
    cases cell with
    | spacer => exact hrow
    | glyph c =>
      have hc : c ≠ ControlChar.nul := fun hc => nomatch hcell hc
      simpa [Cell.code, Row.char?, hc] using hrow

/-- Leaving out NUL leaves out just the further cells of wide characters. -/
theorem line_grid {p : Page} (h : p.EachRow fun _ row => ∀ cell ∈ row,
    cell.code = ControlChar.nul → cell = .spacer) (i : Nat) : p.grid.line i = p.line i := by
  unfold Grid.line line
  rw [grid, List.getElem?_map]
  cases hrow : p.rows[i]? with
  | none => rfl
  | some row =>
    change String.ofList (dropTrailingBlanks ((row.map Cell.code).filter (· ≠ ControlChar.nul))) =
      row.text
    rw [filter_code (h i row hrow)]
    rfl

/-- After any calls to an empty page: no check has failed; the page is at least one cell wide, its
last row is that of the cursor, and rows and cursor are within the width; a NUL in its grid is a
further cell of a wide character that was put in that row, and leaving it out gives the text of the
row; and whatever calls follow, the rows above the cursor stay, and the cursor does not go up. -/
theorem shape_replay (width : Nat) (calls more : List Call) :
    let p := replay calls (empty width)
    ((Grid.empty width).run? calls = some p.grid ∧ p.width = max width 1) ∧
      (p.rows.length = p.row + 1 ∧ p.column ≤ p.width) ∧
      (p.EachRow fun i row => row.length ≤ p.width ∧
        ∀ cell ∈ row, cell.code = ControlChar.nul →
          cell = .spacer ∧ ∃ c, WrittenIn width calls i c ∧ 2 ≤ min (cellWidth c) p.width) ∧
      (∀ i, p.grid.line i = p.line i) ∧
      p.rows.take p.row <+: (replay more p).rows ∧ p.row ≤ (replay more p).row := by
  intro p
  have hwidth : p.width = max width 1 := width_replay calls (empty width)
  have hfits : p.Fits := (Fits.empty width).replay calls
  have hcells := accounted_replay width calls
  refine ⟨⟨(empty width).run?_grid calls, hwidth⟩, ⟨p.length_rows, hfits.column⟩, ?_, ?_,
    p.take_rows_prefix_replay more⟩
  · intro i row hrow
    refine ⟨hfits.rows i row hrow, ?_⟩
    intro cell hcell hcode
    rw [hwidth]
    exact (hcells i row hrow).spacer_of_code hcell hcode
  · exact line_grid fun i row hrow cell hcell hcode =>
      ((hcells i row hrow).spacer_of_code hcell hcode).1

end Page

end ControlStream
