import ControlStream.Text.Quoted

/-!
# JSON values and their text

The JSON that is written: on one line, or indented by two spaces for each level.

## Main definitions

* `Json`: a value. Its numbers are natural numbers.
* `Layout`: how a value is laid out.
* `Json.pretty`, `Json.compact`: the text of a value.
-/

namespace ControlStream

/-- A JSON value, as far as it is written here. -/
inductive Json
  | null
  | bool (b : Bool)
  | number (n : Nat)
  | string (s : String)
  | array (items : List Json)
  /-- An object, with its members in order. -/
  | object (members : List (String × Json))
  deriving Repr

inductive Layout
  /-- On one line, without spaces. -/
  | compact
  /-- On lines indented to a depth. -/
  | indented (depth : Nat)
  deriving DecidableEq, Repr

namespace Layout

def inner : Layout → Layout
  | compact => compact
  | indented depth => indented (depth + 1)

/-- What stands in front of a part of a value. -/
def lineBreak : Layout → String
  | compact => ""
  | indented depth => "\n" ++ String.ofList (List.replicate (2 * depth) ' ')

def colon : Layout → String
  | compact => ":"
  | indented _ => ": "

end Layout

namespace Json

def escape (c : Char) : String :=
  match c with
  | '"' => "\\\""
  | '\\' => "\\\\"
  | '\x08' => "\\b"
  | '\x0c' => "\\f"
  | '\n' => "\\n"
  | '\r' => "\\r"
  | '\t' => "\\t"
  | c =>
    if c.toNat < 0x20 then
      "\\u00" ++ String.ofList [Nat.digitChar (c.toNat / 16), Nat.digitChar (c.toNat % 16)]
    else c.toString

def quoteOnto (text : String) (s : String) : String :=
  (s.toList.foldl (fun text c => text ++ escape c) (text.push '"')).push '"'

mutual

def printOnto (layout : Layout) (text : String) : Json → String
  | .null => text ++ "null"
  | .bool true => text ++ "true"
  | .bool false => text ++ "false"
  | .number n => text ++ toString n
  | .string s => quoteOnto text s
  | .array [] => text ++ "[]"
  | .array (item :: items) =>
    let text := printOnto layout.inner (text ++ "[" ++ layout.inner.lineBreak) item
    printItems layout.inner text items ++ layout.lineBreak ++ "]"
  | .object [] => text ++ "\x7b\x7d"
  | .object ((name, value) :: members) =>
    let text := quoteOnto (text ++ "\x7b" ++ layout.inner.lineBreak) name
    let text := printOnto layout.inner (text ++ layout.inner.colon) value
    printMembers layout.inner text members ++ layout.lineBreak ++ "\x7d"

def printItems (layout : Layout) (text : String) : List Json → String
  | [] => text
  | item :: items =>
    printItems layout (printOnto layout (text ++ "," ++ layout.lineBreak) item) items

def printMembers (layout : Layout) (text : String) : List (String × Json) → String
  | [] => text
  | (name, value) :: members =>
    let text := quoteOnto (text ++ "," ++ layout.lineBreak) name
    printMembers layout (printOnto layout (text ++ layout.colon) value) members

end

def pretty (j : Json) : String := printOnto (.indented 0) "" j

def compact (j : Json) : String := printOnto .compact "" j

end Json

end ControlStream
