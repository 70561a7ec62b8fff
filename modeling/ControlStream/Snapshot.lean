import ControlStream.Terminal

/-!
# Snapshots

What can be observed of a terminal on a page, as plain data: the text, the cursor, titles, modes,
default colors, the clipboard and the replies. The same stream gives the same snapshot however it
is cut into pieces.

## Main definitions

* `Snapshot`: the observations.
* `Snapshot.ofTerminal`: take a snapshot.
* `Snapshot.text`: a snapshot to be read by people.
-/

namespace ControlStream

structure CursorSnapshot where
  /-- The row, counted from the top. -/
  row : UInt64
  col : UInt64
  visible : Bool
  deriving DecidableEq, Repr

structure ModesSnapshot where
  insert : Bool
  applicationKeypad : Bool
  charset : String
  deriving DecidableEq, Repr

structure Snapshot where
  cols : UInt64
  /-- The rows of the page, without trailing blanks. -/
  lines : List String
  cursor : CursorSnapshot
  title : Option String
  iconTitle : Option String
  workdir : Option String
  modes : ModesSnapshot
  /-- The default foreground in effect. -/
  foreground : String
  /-- The default background in effect. -/
  background : String
  clipboard : Option String
  replies : List String
  state : String
  deriving DecidableEq, Repr

/-- A number sign and the three channels of a color in hexadecimal. -/
def Color.sharp (c : Color) : String :=
  let rgb := c.toRgb
  "#" ++ hexByte rgb.red ++ hexByte rgb.green ++ hexByte rgb.blue

namespace Snapshot

/-- The snapshot of a terminal on a page. `contents` reads its clipboard. -/
def ofTerminal {κ : Type} (contents : κ → Option String) (t : Terminal Page κ) : Snapshot where
  cols := t.screen.width.toUInt64
  lines := t.screen.lines
  cursor :=
    { row := t.screen.row.toUInt64
      col := t.screen.column.toUInt64
      visible := t.store.getD .cursorVisible true }
  title := t.title?
  iconTitle := t.iconTitle?
  workdir := t.workdir?
  modes :=
    { insert := t.insertMode
      applicationKeypad := t.store.getD .applicationKeypad false
      charset := ((t.store.get? .graphicSet).map (·.current.name)).getD Charset.ascii.name }
  foreground := t.store.palette.foreground.sharp
  background := t.store.palette.background.sharp
  clipboard := contents t.host.clipboard
  replies := t.host.replies.pending.toList
  state := t.state.name

def optionalLine (label : String) : Option String → String
  | none => ""
  | some s => label ++ ": " ++ s ++ "\n"

/-- A snapshot to be read by people: the observations, then the rows between two rules. -/
def text (s : Snapshot) : String :=
  s!"Cursor: ({s.cursor.row.toNat}, {s.cursor.col.toNat})\n"
    ++ optionalLine "Title" s.title
    ++ optionalLine "Icon title" s.iconTitle
    ++ optionalLine "Workdir" s.workdir
    ++ optionalLine "Clipboard" (s.clipboard.map quoteText)
    ++ String.join (s.replies.map fun reply => "Reply: " ++ quoteText reply ++ "\n")
    ++ "State: " ++ s.state ++ "\n"
    ++ "---\n"
    ++ String.join (s.lines.map (· ++ "\n"))
    ++ "---"

end Snapshot

end ControlStream
