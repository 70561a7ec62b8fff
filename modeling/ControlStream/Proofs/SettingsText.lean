import ControlStream.Json.Settings
import ControlStream.Proofs.Decoding

/-!
# Settings are read from what is given

Settings that were written as a JSON text are read back from it. They may also be given in part: an
object with some of the fields, in any order, is read as the standard settings with these fields
replaced, whatever other members stand between them. The colors are an object of the same kind.

## Main definitions

* `ColorScheme.Given`, `Settings.Given`: the fields that are given, and the values they give.
* `ColorScheme.Given.scheme`, `Settings.Given.settings`: the standard values with the given ones in
  their place.
* `ColorScheme.Given.Object`, `Settings.Given.Object`: an object that gives these fields.

## Main statements

* `ColorScheme.independent`, `Settings.independent`: the order of the fields does not matter.
* `Settings.ofJson_written_and_given`: settings are read back, and they are read from an object that
  gives a part of them.
-/

namespace ControlStream

@[simp] theorem decodeRgb_toJson (c : Rgb) : decodeRgb c.toJson.tree = .ok c := by
  have hread := decodeExactly_array decodeByte_number "a tuple of size 3" #v[c.red, c.green, c.blue]
  rw [decodeRgb]
  refine (congrArg (· >>= _) hread).trans ?_
  rfl

@[simp] theorem decodeOption_rgb (c : Option Rgb) :
    decodeOption decodeRgb (Json.option Rgb.toJson c).tree = .ok c := by
  cases c with
  | none => rfl
  | some c =>
    have hread : decodeOption decodeRgb c.toJson.tree = some <$> decodeRgb c.toJson.tree := rfl
    rw [Json.option, hread, decodeRgb_toJson]
    rfl

/-- What is given by a tree is read from it. -/
theorem rel_decode_map {α : Type} {decode : Decoder α} {toTree : α → Tree}
    (h : ∀ a, decode (toTree a) = .ok a) (given : Option α) :
    Option.Rel (fun tree a => decode tree = .ok a) (given.map toTree) given := by
  cases given with
  | none => exact .none
  | some a => exact .some (h a)

/-! ### Colors -/

namespace ColorScheme

theorem decodeAnsi (ansi : Vector Rgb 16) :
    decodeExactly 16 "an array of length 16" decodeRgb
      (Json.array (ansi.toList.map Rgb.toJson)).tree = .ok ansi :=
  decodeExactly_array decodeRgb_toJson _ ansi

theorem decode_toJson (s : ColorScheme) : shape.decode s.toJson.tree = .ok s :=
  shape.decode_of_gives (by simp [shape]) <|
    .decoded (decodeOption_rgb s.foreground) <|
    .decoded (decodeOption_rgb s.background) <|
    .decoded (decodeAnsi s.ansi) <|
    .nil s

/-- The colors may be given in any order. -/
theorem independent : shape.Independent where
  nodup := by simp [shape]
  commute := by
    simp only [shape, List.pairwise_cons, List.forall_mem_cons, List.not_mem_nil, false_implies,
      implies_true, List.Pairwise.nil, and_true]
    refine ⟨⟨?_, ?_⟩, ?_⟩
    all_goals exact RecordShape.commute_fieldOf fun _ _ _ => rfl

structure Given where
  /-- A default foreground, or that there is none. -/
  foreground : Option (Option Rgb)
  background : Option (Option Rgb)
  ansi : Option (Vector Rgb 16)

namespace Given

variable (g : Given)

def scheme : ColorScheme where
  foreground := g.foreground.getD standard.foreground
  background := g.background.getD standard.background
  ansi := g.ansi.getD standard.ansi

def members : List (String × Tree) :=
  presentMembers [
    ("foreground", g.foreground.map fun c => (Json.option Rgb.toJson c).tree),
    ("background", g.background.map fun c => (Json.option Rgb.toJson c).tree),
    ("ansi", g.ansi.map fun ansi => (Json.array (ansi.toList.map Rgb.toJson)).tree)]

/-- An object that gives the colors, in any order and with other members in any place. -/
def Object (tree : Tree) : Prop := shape.ObjectWith g.members tree

theorem gives : RecordShape.Gives shape.fields g.members shape.blank g.scheme :=
  .optional ColorScheme.foreground rfl (rel_decode_map decodeOption_rgb g.foreground) <|
  .optional ColorScheme.background rfl (rel_decode_map decodeOption_rgb g.background) <|
  .optional ColorScheme.ansi rfl (rel_decode_map decodeAnsi g.ansi) <|
  .nil g.scheme

theorem Object.decode_eq {g : Given} {tree : Tree} (h : g.Object tree)
    (hskip : skip tree = .ok ()) : shape.decode tree = .ok g.scheme :=
  RecordShape.ObjectWith.decode_eq h independent hskip g.gives

theorem rel_decode {given : Option Given} {tree : Option Tree} (h : Option.Rel Object given tree)
    (hskip : ∀ t, tree = some t → skip t = .ok ()) :
    Option.Rel (fun tree s => shape.decode tree = .ok s) tree (given.map (·.scheme)) := by
  cases h with
  | none => exact .none
  | some h => exact .some (h.decode_eq (hskip _ rfl))

end Given

end ColorScheme

/-! ### Settings -/

namespace Settings

theorem decode_toJson (s : Settings) : shape.decode s.toJson.tree = .ok s :=
  shape.decode_of_gives (by simp [shape]) <|
    .decoded (decodeBool_bool s.clipboardWrites) <|
    .decoded (decodeSize_number s.clipboardLimit) <|
    .decoded (decodeBool_bool s.answerColorQueries) <|
    .decoded (decodeSize_number s.commandLimit) <|
    .decoded s.colors.decode_toJson <|
    .nil s

/-- Settings are read back from their text. -/
theorem ofJson_written (s : Settings) : ofJson s.toJson.pretty.toList = .ok s := by
  rw [ofJson, decodeJson_pretty, decode_toJson]

/-- The settings may be given in any order. -/
theorem independent : shape.Independent where
  nodup := by simp [shape]
  commute := by
    simp only [shape, List.pairwise_cons, List.forall_mem_cons, List.not_mem_nil, false_implies,
      implies_true, List.Pairwise.nil, and_true]
    refine ⟨⟨?_, ?_, ?_, ?_⟩, ⟨?_, ?_, ?_⟩, ⟨?_, ?_⟩, ?_⟩
    all_goals exact RecordShape.commute_fieldOf fun _ _ _ => rfl

structure Given where
  clipboardWrites : Option Bool
  clipboardLimit : Option UInt64
  answerColorQueries : Option Bool
  commandLimit : Option UInt64
  /-- The colors may be given in part, too. -/
  colors : Option ColorScheme.Given

namespace Given

variable (g : Given)

def settings : Settings where
  clipboardWrites := g.clipboardWrites.getD standard.clipboardWrites
  clipboardLimit := g.clipboardLimit.getD standard.clipboardLimit
  answerColorQueries := g.answerColorQueries.getD standard.answerColorQueries
  commandLimit := g.commandLimit.getD standard.commandLimit
  colors := (g.colors.map (·.scheme)).getD standard.colors

def members (colors : Option Tree) : List (String × Tree) :=
  presentMembers [
    ("osc52_clipboard", g.clipboardWrites.map fun b => (Json.bool b).tree),
    ("osc52_max_size", g.clipboardLimit.map fun n => (Json.number n.toNat).tree),
    ("color_query_replies", g.answerColorQueries.map fun b => (Json.bool b).tree),
    ("osc_max_length", g.commandLimit.map fun n => (Json.number n.toNat).tree),
    ("colors", colors)]

/-- An object that gives the settings, in any order and with other members in any place. -/
def Object (tree : Tree) : Prop :=
  ∃ colors, Option.Rel ColorScheme.Given.Object g.colors colors ∧
    shape.ObjectWith (g.members colors) tree

theorem gives {colors : Option Tree}
    (hcolors : Option.Rel (fun tree s => ColorScheme.shape.decode tree = .ok s) colors
      (g.colors.map (·.scheme))) :
    RecordShape.Gives shape.fields (g.members colors) shape.blank g.settings :=
  .optional Settings.clipboardWrites rfl (rel_decode_map decodeBool_bool g.clipboardWrites) <|
  .optional Settings.clipboardLimit rfl (rel_decode_map decodeSize_number g.clipboardLimit) <|
  .optional Settings.answerColorQueries rfl
    (rel_decode_map decodeBool_bool g.answerColorQueries) <|
  .optional Settings.commandLimit rfl (rel_decode_map decodeSize_number g.commandLimit) <|
  .optional Settings.colors rfl hcolors <|
  .nil g.settings

theorem Object.decode_eq {g : Given} {tree : Tree} (h : g.Object tree)
    (hskip : skip tree = .ok ()) : shape.decode tree = .ok g.settings := by
  obtain ⟨colors, hcolors, hobject⟩ := h
  have hskipColors : ∀ t, colors = some t → skip t = .ok () := by
    rintro t rfl
    have hmember : ("colors", t) ∈ g.members t := mem_presentMembers (by simp)
    exact hobject.skip_value hskip hmember
  exact hobject.decode_eq independent hskip
    (g.gives (ColorScheme.Given.rel_decode hcolors hskipColors))

end Given

/-- Settings are read back from their text. And from the text of an object that gives a part of
them, in any order and with other members in any place, they are read as the standard settings with
these in their place. -/
theorem ofJson_written_and_given :
    (∀ s : Settings, ofJson s.toJson.pretty.toList = .ok s) ∧
      ∀ (g : Given) (tree : Tree) (text : List Char), tree.SpelledBy text → g.Object tree →
        ofJson text = .ok g.settings := by
  refine ⟨ofJson_written, fun g tree text hspelled hobject => ?_⟩
  rw [ofJson, decodeJson_spelled _ hspelled]
  exact hobject.decode_eq hspelled.skip_eq

/-- The colors come first and in part, and there are other members in both objects. -/
theorem ofJson_given_out_of_order :
    ofJson (Json.object [
      ("colors", .object [("other", .array [.null]), ("foreground", Rgb.toJson ⟨1, 2, 3⟩)]),
      ("other", .object [("osc52_max_size", .string "")]),
      ("osc_max_length", .number 16)]).pretty.toList =
    .ok { standard with
      commandLimit := 16
      colors := { ColorScheme.standard with foreground := some ⟨1, 2, 3⟩ } } := by
  have hcolors : ColorScheme.Given.Object ⟨some (some ⟨1, 2, 3⟩), none, none⟩
      (Json.object [("other", .array [.null]), ("foreground", Rgb.toJson ⟨1, 2, 3⟩)]).tree :=
    .object
      (.unknown (Quoted.decode_ofString "other") (by simp [ColorScheme.shape]) <|
        .known (Quoted.decode_ofString "foreground") (by simp [ColorScheme.shape]) .nil) (.refl _)
  exact ofJson_written_and_given.2
    ⟨none, none, none, some 16, some ⟨some (some ⟨1, 2, 3⟩), none, none⟩⟩ _ _
    (Json.spelledBy_pretty _)
    ⟨some _, .some hcolors, .object
      (.known (Quoted.decode_ofString "colors") (by simp [shape]) <|
        .unknown (Quoted.decode_ofString "other") (by simp [shape]) <|
        .known (Quoted.decode_ofString "osc_max_length") (by simp [shape]) .nil) (.swap ..)⟩

end Settings

end ControlStream
