/-!
# Clipboards

Where a control stream's clipboard writes go.

## Main definitions

* `Clipboard`: something that takes a text or fails to.
* `MemoryClipboard`: keeps the text it was given last.
* `RefusingClipboard`: fails every time and counts the attempts.
-/

namespace ControlStream

inductive ClipboardError
  | unavailable
  | backend (reason : String)
  deriving DecidableEq, Repr

def ClipboardError.message : ClipboardError → String
  | unavailable => "clipboard not available"
  | backend reason => s!"clipboard backend error: {reason}"

class Clipboard (κ : Type) where
  setText : κ → String → κ × Except ClipboardError Unit

/-- A clipboard that keeps the text copied last. -/
structure MemoryClipboard where
  contents : Option String
  deriving DecidableEq, Repr

namespace MemoryClipboard

def empty : MemoryClipboard := ⟨none⟩

instance : Inhabited MemoryClipboard := ⟨empty⟩

instance : Clipboard MemoryClipboard where
  setText _ text := (⟨some text⟩, .ok ())

end MemoryClipboard

/-- A clipboard that never takes a text. -/
structure RefusingClipboard where
  error : ClipboardError
  attempts : Nat
  deriving DecidableEq, Repr

instance : Clipboard RefusingClipboard where
  setText c _ := ({ c with attempts := c.attempts + 1 }, .error c.error)

instance {κ μ : Type} [Clipboard κ] [Clipboard μ] : Clipboard (κ ⊕ μ) where
  setText
    | .inl c, text => let r := Clipboard.setText c text; (.inl r.1, r.2)
    | .inr c, text => let r := Clipboard.setText c text; (.inr r.1, r.2)

end ControlStream
