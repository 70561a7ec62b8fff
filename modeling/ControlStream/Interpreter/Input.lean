/-!
# The input

The characters that were delivered and not yet interpreted. One character that was read can be
pushed back; it is then read again before the others.

## Main definitions

* `Input`: the waiting characters and the slot for the one pushed back.
* `Input.read`, `Input.peek`: take the next character, or look at it.
* `Input.pushBack`: put a character back, which fails if one is there already.
-/

namespace ControlStream

/-- A character was pushed back while another one was waiting to be read again. -/
structure SlotOccupied where
  deriving DecidableEq, Repr

/-- The characters delivered so far that were not read. -/
structure Input where
  /-- The character that was pushed back. -/
  slot : Option Char
  queue : List Char
  deriving DecidableEq, Repr

namespace Input

def empty : Input := ⟨none, []⟩

instance : Inhabited Input := ⟨empty⟩

def toList (i : Input) : List Char := i.slot.toList ++ i.queue

def feed (i : Input) (s : List Char) : Input := { i with queue := i.queue ++ s }

/-- Take the next character: the one pushed back, or else the first of the queue. -/
def read (i : Input) : Option Char × Input :=
  match i.slot, i.queue with
  | some c, queue => (some c, ⟨none, queue⟩)
  | none, c :: queue => (some c, ⟨none, queue⟩)
  | none, [] => (none, i)

def peek (i : Input) : Option Char := i.slot.or i.queue.head?

/-- Put a character in front of the others. There is room for one. -/
def pushBack (i : Input) (c : Char) : Except SlotOccupied Input :=
  match i.slot with
  | none => .ok { i with slot := some c }
  | some _ => .error {}

def isEmpty (i : Input) : Bool := i.slot.isNone && i.queue.isEmpty

def length (i : Input) : Nat := i.queue.length + i.slot.toList.length

def clear (_ : Input) : Input := empty

/-- Reading leaves the slot empty. -/
theorem slot_read (i : Input) : i.read.2.slot = none := by
  obtain ⟨slot, queue⟩ := i
  cases slot <;> cases queue <;> simp [read]

theorem slot_of_read {i rest : Input} {c : Option Char} (h : i.read = (c, rest)) :
    rest.slot = none := by
  have hslot := i.slot_read
  rwa [h] at hslot

/-- Reading fails only if no character waits. -/
theorem eq_empty_of_read {i rest : Input} (h : i.read = (none, rest)) : rest = empty := by
  obtain ⟨slot, queue⟩ := i
  cases slot <;> cases queue <;> simp [read] at h
  exact h.symm

/-- Reading a character leaves one less. -/
theorem length_read {i rest : Input} {c : Char} (h : i.read = (some c, rest)) :
    i.length = rest.length + 1 := by
  obtain ⟨slot, queue⟩ := i
  cases slot <;> cases queue <;> simp [read, length] at h ⊢ <;>
    obtain ⟨_, rfl⟩ := h <;> simp

theorem peek_eq (i : Input) : i.peek = i.toList.head? := by
  obtain ⟨slot, queue⟩ := i
  cases slot <;> simp [peek, toList]

@[simp] theorem pushBack_mk_none (s : List Char) (c : Char) :
    (Input.mk none s).pushBack c = .ok ⟨some c, s⟩ := rfl

theorem pushBack_of_slot {i : Input} (h : i.slot = none) (c : Char) :
    i.pushBack c = .ok ⟨some c, i.queue⟩ := by
  obtain ⟨slot, queue⟩ := i
  simp only at h
  subst h
  rfl

end Input

end ControlStream
