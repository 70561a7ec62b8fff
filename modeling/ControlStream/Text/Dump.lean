/-!
# Dumps

The text of structured values in debugging output: records with named fields, lists, options.

## Main definitions

* `dumpRecord`, `dumpList`, `dumpOption`: put together a value from the texts of its parts.
-/

namespace ControlStream

def dumpRecord (name : String) (fields : List (String × String)) : String :=
  name ++ " \x7b " ++ ", ".intercalate (fields.map fun f => f.1 ++ ": " ++ f.2) ++ " \x7d"

def dumpList {α : Type} (dump : α → String) (items : List α) : String :=
  "[" ++ ", ".intercalate (items.map dump) ++ "]"

def dumpOption {α : Type} (dump : α → String) : Option α → String
  | none => "None"
  | some a => "Some(" ++ dump a ++ ")"

end ControlStream
