import ControlStream.Screen
import ControlStream.Text.Blank
import ControlStream.Text.Width

/-!
# Pages

A page is a screen of fixed width and unbounded height. Text is laid out in cells from the
cursor on and wraps at the right edge. The cursor can go back within its row, and down, but never
up, so all rows but the last are final.

## Main definitions

* `Cell`, `Row`: a character or the continuation of a wide one, and a row of them.
* `Page`: the rows, the cursor, the insert mode, the bells rung and the texts written.
* `Page.put`, `Page.write`, `Page.control`: lay out a character, a text, a control character.
* `Page.line`, `Page.lines`, `Page.text`: the text of the rows, without trailing blanks.
-/

namespace ControlStream

inductive Cell
  /-- A cell that shows a character, or the first cell of a wide character. -/
  | glyph (c : Char)
  /-- A further cell of the wide character before it. -/
  | spacer
  deriving DecidableEq, Inhabited, Repr

/-- The cells of a row up to the last one that was written. -/
abbrev Row := List Cell

def cellsOf (c : Char) (width : Nat) : Row := .glyph c :: List.replicate (width - 1) .spacer

namespace Row

def padTo (row : Row) (n : Nat) : Row := row ++ List.replicate (n - row.length) (.glyph ' ')

def overwrite (row : Row) (column : Nat) (cells : Row) : Row :=
  let row := row.padTo column
  row.take column ++ cells ++ row.drop (column + cells.length)

/-- Put cells in front of those from a column on. What is pushed out of the page is lost. -/
def insert (row : Row) (pageWidth column : Nat) (cells : Row) : Row :=
  let row := row.padTo column
  (row.take column ++ cells ++ row.drop column).take pageWidth

def char? : Cell → Option Char
  | .glyph c => some c
  | .spacer => none

/-- The text of a row, without trailing blanks. -/
def text (row : Row) : String := String.ofList (dropTrailingBlanks (row.filterMap char?))

end Row

/-- A screen of fixed width and unbounded height. -/
structure Page where
  width : Nat
  /-- A row has room for at least one cell. -/
  width_pos : 0 < width
  /-- The rows above the cursor, the nearest first. -/
  above : List Row
  /-- The row of the cursor, which is the last one. -/
  current : Row
  /-- The column of the cursor. It may stand past the last cell of a full row. -/
  column : Nat
  /-- Text is inserted instead of written over what is there. -/
  inserting : Bool
  recording : Bool
  writes : Array String
  bells : Nat
  deriving DecidableEq, Repr

namespace Page

def tabWidth : Nat := 8

/-- An empty page of the given width, or of one cell if the width is zero. -/
def empty (width : Nat) : Page where
  width := max width 1
  width_pos := by omega
  above := []
  current := []
  column := 0
  inserting := false
  recording := true
  writes := #[]
  bells := 0

instance : Inhabited Page := ⟨empty 80⟩

/-- Turn the recording of texts on or off. Turning it off drops the record. -/
def record (p : Page) (enabled : Bool) : Page :=
  { p with recording := enabled, writes := if enabled then p.writes else #[] }

def row (p : Page) : Nat := p.above.length

def rows (p : Page) : List Row := p.above.reverse ++ [p.current]

def lines (p : Page) : List String := p.rows.map Row.text

/-- The text of a row counted from the top, empty below the last row. -/
def line (p : Page) (i : Nat) : String := (p.rows[i]?.map Row.text).getD ""

def text (p : Page) : String := "\n".intercalate p.lines

/-- Move the cursor down to a new row, in the same column. -/
def lineFeed (p : Page) : Page :=
  { p with above := p.current :: p.above, current := [] }

/-- Move the cursor to the start of a new row if `width` cells do not fit in this one. -/
def wrap (p : Page) (width : Nat) : Page :=
  if p.column + width > p.width then { p.lineFeed with column := 0 } else p

def place (p : Page) (cells : Row) : Page :=
  { p with
    current :=
      if p.inserting then p.current.insert p.width p.column cells
      else p.current.overwrite p.column cells
    column := p.column + cells.length }

/-- Lay out one character. A character without a cell of its own is dropped, and one wider than
the page is cut to its width. -/
def put (p : Page) (c : Char) : Page :=
  match min (cellWidth c) p.width with
  | 0 => p
  | width => (p.wrap width).place (cellsOf c width)

def putAll (p : Page) (s : List Char) : Page := s.foldl put p

def recordText (p : Page) (s : String) : Page :=
  if p.recording then { p with writes := p.writes.push s } else p

def write (p : Page) (s : String) : Page := (p.putAll s.toList).recordText s

/-- Move the cursor to the next tab stop, or to the last column. -/
def tab (p : Page) : Page :=
  { p with column := min ((p.column / tabWidth + 1) * tabWidth) (p.width - 1) }

def control (p : Page) (c : Char) : Page :=
  if c = ControlChar.cr then { p with column := 0 }
  else if c = ControlChar.lf ∨ c = ControlChar.vt ∨ c = ControlChar.ff then p.lineFeed
  else if c = ControlChar.bs then { p with column := p.column - 1 }
  else if c = ControlChar.tab then p.tab
  else if c = ControlChar.bel then { p with bells := p.bells + 1 }
  else p

def setInsertMode (p : Page) (enabled : Bool) : Page := { p with inserting := enabled }

@[simp] theorem length_rows (p : Page) : p.rows.length = p.row + 1 := by simp [rows, row]

theorem rows_lineFeed (p : Page) : p.lineFeed.rows = p.rows ++ [[]] := by simp [rows, lineFeed]

instance : Screen Page where
  write := write
  control := control
  setInsertMode := setInsertMode

end Page

end ControlStream
