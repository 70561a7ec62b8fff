/-!
# Replies

What the terminal answers to the program that sent the stream. Replies wait until whoever owns the
terminal takes them.

## Main definitions

* `Replies`: the replies that wait, oldest first, with `emit` and `take`.
-/

namespace ControlStream

/-- Replies that wait to be taken, oldest first. -/
structure Replies where
  pending : Array String
  deriving DecidableEq, Inhabited, Repr

namespace Replies

def empty : Replies := ⟨#[]⟩

def emit (r : Replies) (reply : String) : Replies := ⟨r.pending.push reply⟩

@[simp] theorem pending_emit (r : Replies) (reply : String) :
    (r.emit reply).pending.toList = r.pending.toList ++ [reply] := by simp [emit]

def isEmpty (r : Replies) : Bool := r.pending.isEmpty

def take (r : Replies) : Array String × Replies := (r.pending, empty)

end Replies

end ControlStream
