import ControlStream.Json.Number
import ControlStream.Json.Tree
import ControlStream.Text.Decimal
import ControlStream.Text.Quoted

/-!
# Reading values from JSON

The third step of reading JSON: a tree is read as a value of a given type, in the order of the
text, up to the first thing that is wrong. That may be a fault of the text or a mismatch between
the text and the type.

A record can be given as an object or as an array of its fields in order. Unknown members of an
object are skipped; their text has to be JSON, but strings and numbers in them may be out of range.

## Main definitions

* `JsonError`: a fault or a mismatch, with its category and message.
* `Decoder`: how to read a value; `decodeBool`, `decodeNat`, `decodeText`, `decodeOption`,
  `decodeList`, `decodeExactly` and `decodeUnitVariant` are the ones needed.
* `RecordShape`, `RecordShape.decode`: records with their fields.
* `decodeJson`: read a value from a text.
-/

namespace ControlStream

inductive Found
  | null
  | bool (b : Bool)
  | natural (n : Nat)
  /-- A negative integer, by its absolute value. -/
  | negative (n : Nat)
  | float (f : Float)
  | text (s : String)
  | list
  | object

def Found.message : Found → String
  | null => "null"
  | bool b => s!"boolean \x60{b}\x60"
  | natural n => s!"integer \x60{n}\x60"
  | negative n => s!"integer \x60-{n}\x60"
  | float f => s!"floating point \x60{decimalText f}\x60"
  | text s => "string " ++ quoteText s
  | list => "sequence"
  | object => "map"

inductive JsonError
  | fault (f : Fault)
  | invalidType (found : Found) (expected : String)
  /-- A number was found that the type does not have. -/
  | invalidValue (found : Found) (expected : String)
  | invalidLength (length : Nat) (expected : String)
  | missingField (name : String)
  | duplicateField (name : String)
  | unknownVariant (name : String) (expected : List String)

namespace JsonError

inductive Category
  | syntactic
  | eof
  | data
  deriving DecidableEq, Repr

def Category.name : Category → String
  | syntactic => "Syntax"
  | eof => "Eof"
  | data => "Data"

def category : JsonError → Category
  | fault f => if f.isEof then .eof else .syntactic
  | _ => .data

def message : JsonError → String
  | fault f => f.message
  | invalidType found expected => s!"invalid type: {found.message}, expected {expected}"
  | invalidValue found expected => s!"invalid value: {found.message}, expected {expected}"
  | invalidLength length expected => s!"invalid length {length}, expected {expected}"
  | missingField name => s!"missing field \x60{name}\x60"
  | duplicateField name => s!"duplicate field \x60{name}\x60"
  | unknownVariant name expected =>
    let names := ", ".intercalate (expected.map fun n => "\x60" ++ n ++ "\x60")
    s!"unknown variant \x60{name}\x60, expected one of {names}"

end JsonError

abbrev Decoder (α : Type) := Tree → Except JsonError α

def failOn (fault : Option Fault) : Except JsonError Unit :=
  match fault with
  | none => .ok ()
  | some f => .error (.fault f)

def orFault {α : Type} (x : Except Fault α) : Except JsonError α := x.mapError .fault

/-- What a tree has to offer. Arrays and objects are not looked into. -/
def found : Tree → Except JsonError Found
  | .absent f => .error (.fault f)
  | .scalar .null => .ok .null
  | .scalar (.bool b) => .ok (.bool b)
  | .scalar (.number n) => do
    match ← orFault n.evaluate with
    | .natural n => return .natural n
    | .negative n => return .negative n
    | .float f => return .float f
  | .scalar (.string q) => do return .text (← orFault q.decode)
  | .scalar (.misspelt f) => .error (.fault f)
  | .list _ _ => .ok .list
  | .object _ _ => .ok .object

def mismatch {α : Type} (expected : String) (tree : Tree) : Except JsonError α := do
  throw (.invalidType (← found tree) expected)

/-! ### Skipped values -/

/-- A fault, as it is met in an array that is skipped. -/
def Fault.inSkippedList : Fault → Fault
  | trailingComma => expectedValue
  | f => f

/-- A fault, as it is met in an object that is skipped. -/
def Fault.inSkippedObject : Fault → Fault
  | trailingComma => keyMustBeString
  | eofInValue => eofInObject
  | f => f

mutual

def skip : Tree → Except JsonError Unit
  | .absent f => .error (.fault f)
  | .scalar .null => .ok ()
  | .scalar (.bool _) => .ok ()
  | .scalar (.number n) => failOn n.skippedFault?
  | .scalar (.string q) => failOn q.fault
  | .scalar (.misspelt f) => .error (.fault f)
  | .list items fault => do
    skipItems items
    failOn (fault.map Fault.inSkippedList)
  | .object members fault => do
    skipMembers members
    failOn (fault.map Fault.inSkippedObject)

def skipItems : List Tree → Except JsonError Unit
  | [] => .ok ()
  | item :: items => do
    skip item
    skipItems items

def skipMembers : List (Quoted × Tree) → Except JsonError Unit
  | [] => .ok ()
  | (name, value) :: members => do
    failOn name.fault
    skip value
    skipMembers members

end

/-! ### Scalar values -/

def decodeBool : Decoder Bool
  | .scalar (.bool b) => .ok b
  | tree => mismatch "a boolean" tree

def decodeNat (bound : Nat) (expected : String) : Decoder Nat
  | .scalar (.number n) => do
    match ← orFault n.evaluate with
    | .natural n =>
      if n ≤ bound then return n else throw (.invalidValue (.natural n) expected)
    | .negative n => throw (.invalidValue (.negative n) expected)
    | .float f => throw (.invalidType (.float f) expected)
  | tree => mismatch expected tree

def decodeByte : Decoder UInt8 := fun tree => do
  return UInt8.ofNat (← decodeNat 255 "u8" tree)

def decodeSize : Decoder UInt64 := fun tree => do
  return UInt64.ofNat (← decodeNat (Nat.pow 2 64 - 1) "usize" tree)

def decodeText : Decoder String
  | .scalar (.string q) => orFault q.decode
  | tree => mismatch "a string" tree

def decodeOption {α : Type} (decode : Decoder α) : Decoder (Option α)
  | .scalar .null => .ok none
  | tree => do return some (← decode tree)

/-- Read one of some names. A name may also stand for itself as the only member of an object, with
the value null. -/
def decodeUnitVariant {α : Type} (ofName? : String → Option α) (names : List String) :
    Decoder α
  | .scalar (.string q) => do ofVariant (← orFault q.decode)
  | .object ((name, value) :: members) fault => do
    let a ← ofVariant (← orFault name.decode)
    unit value
    match members, fault with
    | [], none => return a
    | [], some .eofInObject => throw (.fault .eofInObject)
    | _, _ => throw (.fault .expectedValue)
  | .object [] (some .eofInObject) => .error (.fault .eofInValue)
  | .object [] (some f) => .error (.fault f)
  | .absent f => .error (.fault f)
  | _ => .error (.fault .expectedValue)
where
  ofVariant (s : String) : Except JsonError α :=
    match ofName? s with
    | some a => .ok a
    | none => .error (.unknownVariant s names)
  unit : Decoder Unit
    | .scalar .null => .ok ()
    | tree => mismatch "unit" tree

/-! ### Arrays -/

def decodeItems {α : Type} (decode : Decoder α) (fault : Option Fault) (read : Array α) :
    List Tree → Except JsonError (List α)
  | [] => do
    failOn fault
    return read.toList
  | item :: items => do
    let a ← decode item
    decodeItems decode fault (read.push a) items

def decodeList {α : Type} (decode : Decoder α) : Decoder (List α)
  | .list items fault => decodeItems decode fault #[] items
  | tree => mismatch "a sequence" tree

def endOfList (items : List Tree) (fault : Option Fault) : Except JsonError Unit :=
  match items, fault with
  | [], none => .ok ()
  | [], some .eofInList => .error (.fault .eofInList)
  | [], some .trailingComma => .error (.fault .trailingComma)
  | _, _ => .error (.fault .trailingCharacters)

/-- Read `n` items of an array after the `index` ones read, and check that it ends. -/
def decodeVector {α : Type} (decode : Decoder α) (expected : String) (fault : Option Fault)
    (index : Nat) : (n : Nat) → List Tree → Except JsonError (Vector α n)
  | 0, items => do
    endOfList items fault
    return #v[]
  | _ + 1, [] => do
    failOn fault
    throw (.invalidLength index expected)
  | n + 1, item :: items => do
    let a ← decode item
    let rest ← decodeVector decode expected fault (index + 1) n items
    return (#v[a] ++ rest).cast (Nat.add_comm 1 n)

def decodeExactly {α : Type} (n : Nat) (expected : String) (decode : Decoder α) :
    Decoder (Vector α n)
  | .list items fault => decodeVector decode expected fault 0 n items
  | tree => mismatch expected tree

/-! ### Records -/

structure RecordField (σ : Type) where
  name : String
  set : Tree → σ → Except JsonError σ
  /-- An object has to have the field. -/
  requiredInObject : Bool
  /-- An array has to have the field. -/
  requiredInList : Bool

/-- A record type: its name, its fields in order, and the record to start from, which has the
values of fields that may be left out. -/
structure RecordShape (σ : Type) where
  name : String
  fields : List (RecordField σ)
  /-- The record without any field given. -/
  blank : σ

namespace RecordShape

variable {σ : Type}

def lengthText (shape : RecordShape σ) : String :=
  s!"struct {shape.name} with {shape.fields.length} elements"

def missing? (shape : RecordShape σ) (seen : List String) : Option String :=
  (shape.fields.find? fun f => f.requiredInObject && !seen.contains f.name).map (·.name)

/-- Read the members of an object into a record. `seen` are the names of the fields read. -/
def decodeMembers (shape : RecordShape σ) (fault : Option Fault) (seen : List String)
    (record : σ) : List (Quoted × Tree) → Except JsonError σ
  | [] => do
    failOn fault
    match shape.missing? seen with
    | some name => throw (.missingField name)
    | none => return record
  | (name, value) :: members => do
    let name ← orFault name.decode
    match shape.fields.find? (·.name == name) with
    | none =>
      skip value
      shape.decodeMembers fault seen record members
    | some field =>
      if seen.contains field.name then throw (.duplicateField field.name)
      let record ← field.set value record
      shape.decodeMembers fault (field.name :: seen) record members

/-- Read the items of an array into the fields of a record, of which `index` were read. -/
def decodeFields (shape : RecordShape σ) (fault : Option Fault) (index : Nat) (record : σ) :
    List (RecordField σ) → List Tree → Except JsonError σ
  | [], items => do
    endOfList items fault
    return record
  | field :: fields, [] => do
    failOn fault
    if field.requiredInList then throw (.invalidLength index shape.lengthText)
    shape.decodeFields fault (index + 1) record fields []
  | field :: fields, item :: items => do
    let record ← field.set item record
    shape.decodeFields fault (index + 1) record fields items

def decode (shape : RecordShape σ) : Decoder σ
  | .object members fault => shape.decodeMembers fault [] shape.blank members
  | .list items fault => shape.decodeFields fault 0 shape.blank shape.fields items
  | tree => mismatch s!"struct {shape.name}" tree

end RecordShape

/-- Read a value from a text, which may have nothing but space after it. -/
def decodeJson {α : Type} (decode : Decoder α) (s : List Char) : Except JsonError α := do
  let text := JsonText.read s
  let a ← decode text.tree
  if text.trailing then throw (.fault .trailingCharacters)
  return a

end ControlStream
