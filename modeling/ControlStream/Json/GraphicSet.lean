import ControlStream.GraphicSet
import ControlStream.Json.Decode
import ControlStream.Json.Value

/-!
# Character sets in JSON

## Main definitions

* `GraphicSet.toJson`, `GraphicSet.ofJson`: write and read the designated character sets.
-/

namespace ControlStream

def Json.option {α : Type} (encode : α → Json) : Option α → Json
  | none => .null
  | some a => encode a

def decodeCharset : Decoder Charset :=
  decodeUnitVariant Charset.ofName? (Charset.all.map Charset.name)

namespace GraphicSet

def toJson (g : GraphicSet) : Json :=
  .object [
    ("slots", .array (g.slots.toList.map fun c => .string c.name)),
    ("active", .number g.active.toNat),
    ("single_shift", .option (fun i => .number i.toNat) g.singleShift)]

def shape : RecordShape GraphicSet where
  name := "GraphicCharacterSet"
  fields := [
    { name := "slots"
      set := fun tree g => do
        return { g with slots := ← decodeExactly 4 "an array of length 4" decodeCharset tree }
      requiredInObject := true
      requiredInList := true },
    { name := "active"
      set := fun tree g => do return { g with active := ← decodeByte tree }
      requiredInObject := true
      requiredInList := true },
    { name := "single_shift"
      set := fun tree g => do return { g with singleShift := ← decodeOption decodeByte tree }
      requiredInObject := false
      requiredInList := true }]
  blank := .initial

def ofJson (s : List Char) : Except JsonError GraphicSet := decodeJson shape.decode s

end GraphicSet

end ControlStream
