import ControlStream.Terminal
import ControlStream.Text.Dump
import ControlStream.Text.Utf8

/-!
# Looking into a terminal

The text of a whole terminal, for debugging.

## Main definitions

* `Palette.dump`, `Store.dump`, `Page.dump`, `MemoryClipboard.dump`, `Replies.dump`: the parts.
* `Terminal.dump`: the terminal.
-/

namespace ControlStream

def Color.dump (c : Color) : String := toString c.packed.toNat

def Palette.dump (p : Palette) : String :=
  dumpRecord "ColorPalette" [
    ("initial", dumpList Color.dump p.initial.indexed.toList),
    ("colors", dumpList Color.dump p.current.indexed.toList),
    ("initial_foreground", dumpOption Color.dump p.initial.foreground),
    ("initial_background", dumpOption Color.dump p.initial.background),
    ("foreground", dumpOption Color.dump p.current.foreground),
    ("background", dumpOption Color.dump p.current.background)]

def Key.dump {α : Type} (k : Key α) : String := "DataKey(" ++ quoteText k.name ++ ")"

def Store.dump (s : Store) : String :=
  dumpRecord "TerminalModel" [
    ("keys", dumpList quoteText s.names),
    ("palette", s.palette.dump)]

def Cell.dump : Cell → String
  | .glyph c => quoteChar c
  | .spacer => quoteChar '\x00'

def Page.dump (p : Page) : String :=
  dumpRecord "TextDocument" [
    ("cols", toString p.width),
    ("lines", dumpList (dumpList Cell.dump) p.rows),
    ("row", toString p.row),
    ("col", toString p.column),
    ("insert", toString p.inserting),
    ("writes", dumpList quoteText p.writes.toList),
    ("record_writes", toString p.recording),
    ("bells", toString p.bells)]

def MemoryClipboard.dump (c : MemoryClipboard) : String :=
  dumpRecord "MemoryClipboard" [("contents", dumpOption quoteText c.contents)]

def Replies.dump (r : Replies) : String :=
  let dumpReply (reply : String) : String :=
    dumpList (fun (b : UInt8) => toString b.toNat) (encodeUtf8 reply.toList)
  dumpRecord "PendingReplies" [("replies", dumpList dumpReply r.pending.toList)]

def Terminal.dump {σ κ : Type} (dumpScreen : σ → String) (dumpClipboard : κ → String)
    (t : Terminal σ κ) : String :=
  dumpRecord "Terminal" [
    ("state", t.state.name),
    ("model", t.store.dump),
    ("document", dumpScreen t.screen),
    ("clipboard", dumpClipboard t.host.clipboard),
    ("replies", t.host.replies.dump)]

end ControlStream
