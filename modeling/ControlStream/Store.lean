import Std.Data.ExtTreeMap
import ControlStream.GraphicSet
import ControlStream.Color.Palette

/-!
# The store

What a control stream says about the terminal itself, apart from the screen: titles, modes,
character sets. These are values under names, so that whoever reads them need not be known here. A
key is a name together with the type of value seen through it; a value of another type under the
same name is as good as none.

## Main definitions

* `Value`, `Storable`: the values a store holds and the types they are seen as.
* `Key`: a name with a type; `Key.windowTitle` and others are the keys the interpreter uses.
* `Store`: the values and the palette, with `get?`, `set`, `update`, `remove`.

## Implementation notes

The values are in an extensional map: two stores with the same value under every name are equal,
in whatever order the values were stored.
-/

namespace ControlStream

inductive Value
  | text (s : String)
  | flag (b : Bool)
  | number (n : UInt32)
  | graphicSet (g : GraphicSet)
  deriving DecidableEq, Repr

class Storable (α : Type) where
  toValue : α → Value
  /-- The value held, if it is of this type. -/
  ofValue? : Value → Option α
  /-- What updating a missing value starts from. -/
  initial : α
  ofValue?_toValue : ∀ a, ofValue? (toValue a) = some a

attribute [simp] Storable.ofValue?_toValue

instance : Storable String where
  toValue := .text
  ofValue?
    | .text s => some s
    | _ => none
  initial := ""
  ofValue?_toValue _ := rfl

instance : Storable Bool where
  toValue := .flag
  ofValue?
    | .flag b => some b
    | _ => none
  initial := false
  ofValue?_toValue _ := rfl

instance : Storable UInt32 where
  toValue := .number
  ofValue?
    | .number n => some n
    | _ => none
  initial := 0
  ofValue?_toValue _ := rfl

instance : Storable GraphicSet where
  toValue := .graphicSet
  ofValue?
    | .graphicSet g => some g
    | _ => none
  initial := .initial
  ofValue?_toValue _ := rfl

/-- A name in a store, with the type of value seen through it. -/
structure Key (α : Type) where
  /-- The name. Keys of one name reach the same value. -/
  name : String
  deriving DecidableEq, Repr

namespace Key

def windowTitle : Key String := ⟨"WindowTitle"⟩

def iconTitle : Key String := ⟨"IconTitle"⟩

def workdir : Key String := ⟨"Workdir"⟩

def graphicSet : Key GraphicSet := ⟨"GraphicCharacterSet"⟩

def insertMode : Key Bool := ⟨"InsertMode"⟩

def written : Key String := ⟨"Written"⟩

def cursorVisible : Key Bool := ⟨"CursorVisible"⟩

def applicationKeypad : Key Bool := ⟨"ApplicationKeypad"⟩

end Key

/-- The values a control stream has set, by name, and the palette. -/
structure Store where
  entries : Std.ExtTreeMap String Value compare
  palette : Palette

namespace Store

variable {α β : Type} [Storable α] [Storable β]

def ofPalette (palette : Palette) : Store := ⟨∅, palette⟩

instance : Inhabited Store := ⟨ofPalette .standard⟩

/-- The value under a key, if there is one of its type. -/
def get? (s : Store) (k : Key α) : Option α :=
  s.entries[k.name]?.bind Storable.ofValue?

/-- The value under a key, or `default` if there is none of its type. -/
def getD (s : Store) (k : Key α) (default : α) : α := (s.get? k).getD default

/-- There is a value of its type under a key. -/
def contains (s : Store) (k : Key α) : Bool := (s.get? k).isSome

def set (s : Store) (k : Key α) (a : α) : Store :=
  { s with entries := s.entries.insert k.name (Storable.toValue a) }

/-- Change the value under a key and return a result. If there is none of its type, the change
starts from the initial value of the type and replaces whatever is there. -/
def update {γ : Type} (s : Store) (k : Key α) (f : α → γ × α) : γ × Store :=
  let result := f (s.getD k Storable.initial)
  (result.1, s.set k result.2)

/-- Change the value under a key, starting from the initial value if there is none of its type. -/
def modify (s : Store) (k : Key α) (f : α → α) : Store :=
  s.set k (f (s.getD k Storable.initial))

/-- Change the value under a key if there is one of its type. -/
def modifyIfSet (s : Store) (k : Key α) (f : α → α) : Store :=
  match s.get? k with
  | some a => s.set k (f a)
  | none => s

/-- Take away the value under a key; a value of another type stays. -/
def remove (s : Store) (k : Key α) : Store :=
  if s.contains k then { s with entries := s.entries.erase k.name } else s

/-- Take away all values; the palette stays. -/
def clear (s : Store) : Store := { s with entries := ∅ }

def names (s : Store) : List String := s.entries.keys

def modifyPalette (s : Store) (f : Palette → Palette) : Store :=
  { s with palette := f s.palette }

@[simp] theorem palette_set (s : Store) (k : Key α) (a : α) : (s.set k a).palette = s.palette :=
  rfl

@[simp] theorem palette_remove (s : Store) (k : Key α) : (s.remove k).palette = s.palette := by
  unfold remove
  split <;> rfl

/-- Of two values put under a key, the later one stays. -/
@[simp] theorem set_set (s : Store) (k : Key α) (a b : α) : (s.set k a).set k b = s.set k b := by
  have hentries : (s.entries.insert k.name (Storable.toValue a)).insert k.name
      (Storable.toValue b) = s.entries.insert k.name (Storable.toValue b) := by
    apply Std.ExtTreeMap.ext_getElem?
    intro name
    simp only [Std.ExtTreeMap.getElem?_insert]
    split <;> rfl
  simp only [set, hentries]

@[simp] theorem get?_set_self (s : Store) (k : Key α) (a : α) : (s.set k a).get? k = some a := by
  simp [get?, set]

theorem get?_set_of_ne (s : Store) {k : Key α} {l : Key β} (a : α) (h : k.name ≠ l.name) :
    (s.set k a).get? l = s.get? l := by
  simp [get?, set, Std.ExtTreeMap.getElem?_insert, h]

@[simp] theorem get?_remove_self (s : Store) (k : Key α) : (s.remove k).get? k = none := by
  unfold remove contains
  split
  · simp [get?]
  · simpa [Option.not_isSome_iff_eq_none] using ‹¬(s.get? k).isSome = true›

theorem get?_remove_of_ne (s : Store) {k : Key α} {l : Key β} (h : k.name ≠ l.name) :
    (s.remove k).get? l = s.get? l := by
  unfold remove
  split
  · simp [get?, Std.ExtTreeMap.getElem?_erase, h]
  · rfl

@[simp] theorem getD_set_self (s : Store) (k : Key α) (a default : α) :
    (s.set k a).getD k default = a := by
  simp [getD]

theorem getD_set_of_ne (s : Store) {k : Key α} {l : Key β} (a : α) (h : k.name ≠ l.name)
    (default : β) : (s.set k a).getD l default = s.getD l default := by
  rw [getD, getD, get?_set_of_ne s a h]

end Store

end ControlStream
