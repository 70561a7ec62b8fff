import ControlStream.Json.Snapshot
import ControlStream.Proofs.Decoding

/-!
# Snapshots are read back

A snapshot that was written as a JSON text is read from it again, whatever it holds. What is left
out of the text is what a snapshot has that was read without it: a string that is absent, a mode
that is off, no replies.

## Main statements

* `CursorSnapshot.decode_toJson`, `ModesSnapshot.decode_toJson`: the parts of a snapshot.
* `Snapshot.ofJson_toJson`: a snapshot is read back from its text.
-/

namespace ControlStream

namespace CursorSnapshot

theorem decode_toJson (c : CursorSnapshot) : shape.decode c.toJson.tree = .ok c :=
  shape.decode_of_gives (by simp [shape]) <|
    .decoded (decodeSize_number c.row) <|
    .decoded (decodeSize_number c.col) <|
    .decoded (decodeBool_bool c.visible) <|
    .nil c

end CursorSnapshot

namespace RecordShape

namespace Gives

variable {σ : Type} {fields : List (RecordField σ)} {members : List (String × Json)} {r r' : σ}
  {name : String} {inList : Bool}

/-- A mode is left out when it is off. -/
theorem flag {put : Bool → σ → σ} {b : Bool} (habsent : put false r = r)
    (hrest : Gives fields (Json.namedTrees members) (put b r) r') :
    Gives (fieldOf name decodeBool put false inList :: fields)
      (Json.namedTrees ((if b then [(name, .bool true)] else []) ++ members)) r r' := by
  cases b with
  | false => exact .leftOut rfl (habsent ▸ hrest)
  | true => exact .decoded (decodeBool_bool true) hrest

/-- A string is left out when there is none. -/
theorem optionalMember {put : Option String → σ → σ} {text : Option String}
    (habsent : put none r = r) (hrest : Gives fields (Json.namedTrees members) (put text r) r') :
    Gives (fieldOf name (decodeOption decodeText) put false inList :: fields)
      (Json.namedTrees (Snapshot.optionalMember name text ++ members)) r r' := by
  cases text with
  | none => exact .leftOut rfl (habsent ▸ hrest)
  | some text => exact .decoded (decodeOption_string text) hrest

/-- A list of strings is left out when it is empty. -/
theorem texts {put : List String → σ → σ} {texts : List String}
    (habsent : put [] r = r) (hrest : Gives fields (Json.namedTrees members) (put texts r) r') :
    Gives (fieldOf name (decodeList decodeText) put false inList :: fields)
      (Json.namedTrees
        ((if texts.isEmpty then [] else [(name, Snapshot.textArray texts)]) ++ members)) r r' := by
  cases texts with
  | nil => exact .leftOut rfl (habsent ▸ hrest)
  | cons text texts => exact .decoded (decodeList_array decodeText_string _) hrest

end Gives

end RecordShape

namespace ModesSnapshot

theorem decode_toJson (m : ModesSnapshot) : shape.decode m.toJson.tree = .ok m := by
  rw [toJson, List.append_assoc]
  exact shape.decode_of_gives (by simp [shape]) <|
    .flag rfl <|
    .flag rfl <|
    .decoded (decodeText_string m.charset) <|
    .nil m

end ModesSnapshot

namespace Snapshot

theorem decode_toJson (s : Snapshot) : shape.decode s.toJson.tree = .ok s := by
  rw [toJson]
  simp only [List.append_assoc, List.cons_append, List.nil_append]
  -- Field by field. A field that may be left out is one that starts out as if it were.
  exact shape.decode_of_gives (by simp [shape]) <|
    .decoded (decodeSize_number s.cols) <|
    .decoded (decodeList_array decodeText_string s.lines) <|
    .decoded s.cursor.decode_toJson <|
    .optionalMember rfl <|
    .optionalMember rfl <|
    .optionalMember rfl <|
    .decoded s.modes.decode_toJson <|
    .decoded (decodeText_string s.foreground) <|
    .decoded (decodeText_string s.background) <|
    .optionalMember rfl <|
    .texts rfl <|
    .decoded (decodeText_string s.state) <|
    .nil s

/-- A snapshot is read back from its text. -/
theorem ofJson_toJson (s : Snapshot) : ofJson s.toJson.pretty.toList = .ok s := by
  rw [ofJson, decodeJson_pretty, decode_toJson]

end Snapshot

end ControlStream
