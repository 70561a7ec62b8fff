import ControlStream.Json.GraphicSet
import ControlStream.Snapshot

/-!
# Snapshots in JSON

Values that are absent, modes that are off and an empty list of replies are left out.

## Main definitions

* `Snapshot.toJson`, `Snapshot.ofJson`: write and read a snapshot.
-/

namespace ControlStream

namespace CursorSnapshot

def toJson (c : CursorSnapshot) : Json :=
  .object [
    ("row", .number c.row.toNat),
    ("col", .number c.col.toNat),
    ("visible", .bool c.visible)]

def shape : RecordShape CursorSnapshot where
  name := "CursorSnapshot"
  fields := [
    { name := "row"
      set := fun tree c => do return { c with row := ← decodeSize tree }
      requiredInObject := true
      requiredInList := true },
    { name := "col"
      set := fun tree c => do return { c with col := ← decodeSize tree }
      requiredInObject := true
      requiredInList := true },
    { name := "visible"
      set := fun tree c => do return { c with visible := ← decodeBool tree }
      requiredInObject := true
      requiredInList := true }]
  blank := ⟨0, 0, false⟩

end CursorSnapshot

namespace ModesSnapshot

def toJson (m : ModesSnapshot) : Json :=
  .object (
    (if m.insert then [("insert", .bool true)] else [])
      ++ (if m.applicationKeypad then [("application_keypad", .bool true)] else [])
      ++ [("charset", .string m.charset)])

def shape : RecordShape ModesSnapshot where
  name := "ModesSnapshot"
  fields := [
    { name := "insert"
      set := fun tree m => do return { m with insert := ← decodeBool tree }
      requiredInObject := false
      requiredInList := false },
    { name := "application_keypad"
      set := fun tree m => do return { m with applicationKeypad := ← decodeBool tree }
      requiredInObject := false
      requiredInList := false },
    { name := "charset"
      set := fun tree m => do return { m with charset := ← decodeText tree }
      requiredInObject := true
      requiredInList := true }]
  blank := ⟨false, false, ""⟩

end ModesSnapshot

namespace Snapshot

def optionalMember (name : String) : Option String → List (String × Json)
  | none => []
  | some s => [(name, .string s)]

def textArray (texts : List String) : Json := .array (texts.map .string)

def toJson (s : Snapshot) : Json :=
  .object (
    [("cols", .number s.cols.toNat),
      ("lines", textArray s.lines),
      ("cursor", s.cursor.toJson)]
      ++ optionalMember "title" s.title
      ++ optionalMember "icon_title" s.iconTitle
      ++ optionalMember "workdir" s.workdir
      ++ [("modes", s.modes.toJson),
        ("foreground", .string s.foreground),
        ("background", .string s.background)]
      ++ optionalMember "clipboard" s.clipboard
      ++ (if s.replies.isEmpty then [] else [("replies", textArray s.replies)])
      ++ [("state", .string s.state)])

def shape : RecordShape Snapshot where
  name := "Snapshot"
  fields := [
    { name := "cols"
      set := fun tree s => do return { s with cols := ← decodeSize tree }
      requiredInObject := true
      requiredInList := true },
    { name := "lines"
      set := fun tree s => do return { s with lines := ← decodeList decodeText tree }
      requiredInObject := true
      requiredInList := true },
    { name := "cursor"
      set := fun tree s => do return { s with cursor := ← CursorSnapshot.shape.decode tree }
      requiredInObject := true
      requiredInList := true },
    { name := "title"
      set := fun tree s => do return { s with title := ← decodeOption decodeText tree }
      requiredInObject := false
      requiredInList := false },
    { name := "icon_title"
      set := fun tree s => do return { s with iconTitle := ← decodeOption decodeText tree }
      requiredInObject := false
      requiredInList := false },
    { name := "workdir"
      set := fun tree s => do return { s with workdir := ← decodeOption decodeText tree }
      requiredInObject := false
      requiredInList := false },
    { name := "modes"
      set := fun tree s => do return { s with modes := ← ModesSnapshot.shape.decode tree }
      requiredInObject := true
      requiredInList := true },
    { name := "foreground"
      set := fun tree s => do return { s with foreground := ← decodeText tree }
      requiredInObject := true
      requiredInList := true },
    { name := "background"
      set := fun tree s => do return { s with background := ← decodeText tree }
      requiredInObject := true
      requiredInList := true },
    { name := "clipboard"
      set := fun tree s => do return { s with clipboard := ← decodeOption decodeText tree }
      requiredInObject := false
      requiredInList := false },
    { name := "replies"
      set := fun tree s => do return { s with replies := ← decodeList decodeText tree }
      requiredInObject := false
      requiredInList := false },
    { name := "state"
      set := fun tree s => do return { s with state := ← decodeText tree }
      requiredInObject := true
      requiredInList := true }]
  blank :=
    { cols := 0
      lines := []
      cursor := CursorSnapshot.shape.blank
      title := none
      iconTitle := none
      workdir := none
      modes := ModesSnapshot.shape.blank
      foreground := ""
      background := ""
      clipboard := none
      replies := []
      state := "" }

def ofJson (s : List Char) : Except JsonError Snapshot := decodeJson shape.decode s

end Snapshot

end ControlStream
