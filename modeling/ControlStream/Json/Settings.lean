import ControlStream.Settings
import ControlStream.Json.GraphicSet

/-!
# Settings in JSON

Every setting may be left out; it then has its standard value.

## Main definitions

* `Settings.toJson`, `Settings.ofJson`: write and read settings.
-/

namespace ControlStream

def Rgb.toJson (c : Rgb) : Json :=
  .array [.number c.red.toNat, .number c.green.toNat, .number c.blue.toNat]

def decodeRgb : Decoder Rgb := fun tree => do
  let channels ← decodeExactly 3 "a tuple of size 3" decodeByte tree
  return ⟨channels[0], channels[1], channels[2]⟩

namespace ColorScheme

def toJson (s : ColorScheme) : Json :=
  .object [
    ("foreground", .option Rgb.toJson s.foreground),
    ("background", .option Rgb.toJson s.background),
    ("ansi", .array (s.ansi.toList.map Rgb.toJson))]

def shape : RecordShape ColorScheme where
  name := "PaletteConfig"
  fields := [
    { name := "foreground"
      set := fun tree s => do return { s with foreground := ← decodeOption decodeRgb tree }
      requiredInObject := false
      requiredInList := false },
    { name := "background"
      set := fun tree s => do return { s with background := ← decodeOption decodeRgb tree }
      requiredInObject := false
      requiredInList := false },
    { name := "ansi"
      set := fun tree s => do
        return { s with ansi := ← decodeExactly 16 "an array of length 16" decodeRgb tree }
      requiredInObject := false
      requiredInList := false }]
  blank := .standard

end ColorScheme

namespace Settings

def toJson (s : Settings) : Json :=
  .object [
    ("osc52_clipboard", .bool s.clipboardWrites),
    ("osc52_max_size", .number s.clipboardLimit.toNat),
    ("color_query_replies", .bool s.answerColorQueries),
    ("osc_max_length", .number s.commandLimit.toNat),
    ("colors", s.colors.toJson)]

def shape : RecordShape Settings where
  name := "TerminalConfig"
  fields := [
    { name := "osc52_clipboard"
      set := fun tree s => do return { s with clipboardWrites := ← decodeBool tree }
      requiredInObject := false
      requiredInList := false },
    { name := "osc52_max_size"
      set := fun tree s => do return { s with clipboardLimit := ← decodeSize tree }
      requiredInObject := false
      requiredInList := false },
    { name := "color_query_replies"
      set := fun tree s => do return { s with answerColorQueries := ← decodeBool tree }
      requiredInObject := false
      requiredInList := false },
    { name := "osc_max_length"
      set := fun tree s => do return { s with commandLimit := ← decodeSize tree }
      requiredInObject := false
      requiredInList := false },
    { name := "colors"
      set := fun tree s => do return { s with colors := ← ColorScheme.shape.decode tree }
      requiredInObject := false
      requiredInList := false }]
  blank := .standard

def ofJson (s : List Char) : Except JsonError Settings := decodeJson shape.decode s

def jsonErrorMessage (e : JsonError) : String := s!"JSON error: {e.message}"

end Settings

end ControlStream
