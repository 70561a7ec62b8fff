import Mathlib.Data.List.Induction
import ControlStream.Proofs.Actions

/-!
# The character set in use

Four slots hold designated character sets. Which of them a character is sent through depends on all
that was done before, but only on the last of each kind: on the last single shift, unless it was
used up or a locking shift came after it, on the last locking shift otherwise, and on the last
designation into the slot so found. Designations and shifts that ask for a slot there is not change
nothing.

## Main definitions

* `GraphicChange.onAll`: changes of the character sets, one after the other.
* `GraphicChange.slotInUse`: the slot that the next character is sent through.
* `GraphicChange.charsetInUse`: the character set that was designated into it last.
* `GraphicSet.charsetAfter`: the same if there were other character sets to begin with.

## Main statements

* `GraphicSet.hasHistory_onAll`: what is kept of the changes that were made.
* `GraphicSet.current_onAll`, `GraphicSet.current_onAll_initial`: the character set that the next
  character is sent through.
* `GraphicChange.onAll_designate_of_le`, `GraphicChange.onAll_single_of_ne`: changes without effect.
-/

namespace ControlStream

namespace GraphicChange

def onAll (changes : List GraphicChange) (g : GraphicSet) : GraphicSet :=
  changes.foldl (fun g change => change.on g) g

/-- What the last change tells that tells anything. -/
def lastTold? {α : Type} (tells? : GraphicChange → Option α) (changes : List GraphicChange) :
    Option α :=
  changes.reverse.findSome? tells?

def designated? (slot : UInt8) : GraphicChange → Option Charset
  | designate i charset => if i = slot then some charset else none
  | single _ | shiftOut | shiftIn | used => none

def locked? : GraphicChange → Option UInt8
  | shiftOut => some 1
  | shiftIn => some 0
  | designate _ _ | single _ | used => none

/-- Whether a single shift is pending, and into which slot. Only G2 and G3 can be asked for. -/
def pending? : GraphicChange → Option (Option UInt8)
  | single slot => if slot = 2 ∨ slot = 3 then some (some slot) else none
  | shiftOut | shiftIn | used => some none
  | designate _ _ => none

/-- The slot of the last single shift, if no character was sent through it and no locking shift came
after it. -/
def pendingSlot? (changes : List GraphicChange) : Option UInt8 := (lastTold? pending? changes).join

/-- The slot that the last locking shift has put in use: G1 after SO, or else G0. -/
def lockedSlot (changes : List GraphicChange) : UInt8 := (lastTold? locked? changes).getD 0

/-- The character set that was designated into a slot last, or else ASCII. -/
def designatedLast (slot : UInt8) (changes : List GraphicChange) : Charset :=
  (lastTold? (designated? slot) changes).getD .ascii

def slotInUse (changes : List GraphicChange) : UInt8 :=
  (pendingSlot? changes).getD (lockedSlot changes)

/-- The character set that the next character is sent through. -/
def charsetInUse (changes : List GraphicChange) : Charset :=
  designatedLast (slotInUse changes) changes

theorem onAll_append (changes more : List GraphicChange) (g : GraphicSet) :
    onAll (changes ++ more) g = onAll more (onAll changes g) :=
  List.foldl_append

theorem onAll_concat (changes : List GraphicChange) (change : GraphicChange) (g : GraphicSet) :
    onAll (changes ++ [change]) g = change.on (onAll changes g) :=
  onAll_append changes [change] g

theorem lastTold?_concat {α : Type} (tells? : GraphicChange → Option α)
    (changes : List GraphicChange) (change : GraphicChange) :
    lastTold? tells? (changes ++ [change]) = (tells? change).or (lastTold? tells? changes) := by
  rw [lastTold?, List.reverse_append, List.reverse_singleton, List.singleton_append,
    List.findSome?_cons]
  cases tells? change <;> rfl

/-- A shift only ever puts one of the four slots in use. -/
theorem slotInUse_lt (changes : List GraphicChange) : slotInUse changes < 4 := by
  have hlocked : lockedSlot changes < 4 := by
    unfold lockedSlot
    cases hlast : lastTold? locked? changes with
    | none => decide
    | some slot =>
      obtain ⟨change, -, htold⟩ := List.exists_of_findSome?_eq_some hlast
      cases change <;> cases htold <;> decide
  cases hpending : pendingSlot? changes with
  | none => rwa [slotInUse, hpending]
  | some slot =>
    rw [slotInUse, hpending, Option.getD_some]
    rw [pendingSlot?, Option.join_eq_some_iff] at hpending
    obtain ⟨change, -, htold⟩ := List.exists_of_findSome?_eq_some hpending
    cases change with
    | single asked =>
      rw [pending?] at htold
      split at htold <;> cases htold
      rename_i hasked
      rcases hasked with rfl | rfl <;> decide
    | designate | shiftOut | shiftIn | used => cases htold

end GraphicChange

namespace GraphicSet

open GraphicChange

/-- The slot that the next character is sent through after changes. Where the changes do not tell,
it is as it was to begin with. -/
def slotAfter (g : GraphicSet) (changes : List GraphicChange) : UInt8 :=
  ((lastTold? pending? changes).getD g.singleShift).getD ((lastTold? locked? changes).getD g.active)

/-- The character set that the next character is sent through after changes. -/
def charsetAfter (g : GraphicSet) (changes : List GraphicChange) : Charset :=
  let i := g.slotAfter changes
  if i < 4 then (lastTold? (designated? i) changes).getD (g.slot i) else .ascii

/-- What character sets have kept of the changes that were made to others to get to them. -/
structure HasHistory (origin g : GraphicSet) (changes : List GraphicChange) : Prop where
  slot : ∀ i : UInt8, i < 4 →
    g.slot i = (lastTold? (designated? i) changes).getD (origin.slot i)
  active : g.active = (lastTold? locked? changes).getD origin.active
  singleShift : g.singleShift = (lastTold? pending? changes).getD origin.singleShift

/-- A designation into one of the slots is found there. -/
theorem slot_designate (g : GraphicSet) {i slot : UInt8} (hi : i < 4) (charset : Charset) :
    (g.designate slot charset).slot i = if slot = i then charset else g.slot i := by
  have hlt : i.toNat < 4 := hi
  simp only [GraphicSet.slot, designate, Vector.getElem?_setIfInBounds]
  by_cases hsame : slot = i
  · subst hsame
    simp [hlt]
  · have hne : slot.toNat ≠ i.toNat := mt UInt8.toNat_inj.mp hsame
    rw [if_neg hne, if_neg hsame]

theorem slot_of_not_lt (g : GraphicSet) {i : UInt8} (hi : ¬ i < 4) : g.slot i = .ascii := by
  have hge : ¬ i.toNat < 4 := hi
  simp [slot, hge]

theorem slot_initial (i : UInt8) : initial.slot i = .ascii := by
  simp only [slot, initial, Vector.getElem?_replicate]
  split <;> rfl

/-- What is kept is kept with every change. -/
theorem HasHistory.on {origin g : GraphicSet} {changes : List GraphicChange}
    (h : origin.HasHistory g changes) (change : GraphicChange) :
    origin.HasHistory (change.on g) (changes ++ [change]) := by
  obtain ⟨hslot, hactive, hsingle⟩ := h
  constructor
  · intro i hi
    rw [lastTold?_concat]
    cases change with
    | designate slot charset =>
      rw [GraphicChange.on, slot_designate g hi, designated?]
      split
      · rfl
      · exact hslot i hi
    | single slot =>
      simp only [GraphicChange.on, single]
      split <;> exact hslot i hi
    | shiftOut | shiftIn | used => exact hslot i hi
  · rw [lastTold?_concat]
    cases change with
    | single slot =>
      simp only [GraphicChange.on, single]
      split <;> exact hactive
    | shiftOut | shiftIn => rfl
    | designate | used => exact hactive
  · rw [lastTold?_concat]
    cases change with
    | single slot =>
      simp only [GraphicChange.on, single, pending?]
      split
      · rfl
      · exact hsingle
    | designate => exact hsingle
    | shiftOut | shiftIn | used => rfl

/-- After any changes, it is their history that has been kept. -/
theorem hasHistory_onAll (g : GraphicSet) (changes : List GraphicChange) :
    g.HasHistory (onAll changes g) changes := by
  induction changes using List.reverseRecOn with
  | nil => exact ⟨fun _ _ => rfl, rfl, rfl⟩
  | append_singleton changes change ih =>
    rw [onAll_concat]
    exact ih.on change

/-- The character set that the next character is sent through is the one designated last into the
slot in use. -/
theorem current_onAll (g : GraphicSet) (changes : List GraphicChange) :
    (onAll changes g).current = g.charsetAfter changes := by
  obtain ⟨hslot, hactive, hsingle⟩ := g.hasHistory_onAll changes
  have hcurrent : (onAll changes g).current = (onAll changes g).slot (g.slotAfter changes) := by
    rw [current, hactive, hsingle, slotAfter]
  rw [hcurrent, charsetAfter]
  split
  · exact hslot _ ‹_›
  · exact slot_of_not_lt _ ‹_›

theorem slot_onAll_initial (changes : List GraphicChange) {i : UInt8} (hi : i < 4) :
    (onAll changes initial).slot i = designatedLast i changes := by
  rw [(hasHistory_onAll initial changes).slot i hi, slot_initial, designatedLast]

/-- With nothing to begin with, the character set in use is known from the changes alone. -/
theorem current_onAll_initial (changes : List GraphicChange) :
    (onAll changes initial).current = charsetInUse changes := by
  obtain ⟨-, hactive, hsingle⟩ := hasHistory_onAll initial changes
  have hpending : (lastTold? pending? changes).getD initial.singleShift = pendingSlot? changes := by
    rw [pendingSlot?]
    cases lastTold? pending? changes <;> rfl
  rw [current, hactive, hsingle, hpending]
  exact slot_onAll_initial changes (slotInUse_lt changes)

end GraphicSet

namespace GraphicChange

/-- A designation into a slot that there is not can be left out. -/
theorem onAll_designate_of_le {slot : UInt8} (hslot : 4 ≤ slot) (charset : Charset)
    (front back : List GraphicChange) (g : GraphicSet) :
    onAll (front ++ designate slot charset :: back) g = onAll (front ++ back) g := by
  have hnothing : ∀ g : GraphicSet, g.designate slot charset = g := by
    intro g
    have hge : 4 ≤ slot.toNat := hslot
    simp [GraphicSet.designate, Vector.setIfInBounds_eq_of_size_le hge]
  rw [onAll_append, onAll_append]
  exact congrArg (onAll back) (hnothing _)

/-- A single shift into another slot than G2 and G3 can be left out. -/
theorem onAll_single_of_ne {slot : UInt8} (hslot : ¬ (slot = 2 ∨ slot = 3))
    (front back : List GraphicChange) (g : GraphicSet) :
    onAll (front ++ single slot :: back) g = onAll (front ++ back) g := by
  rw [onAll_append, onAll_append]
  exact congrArg (onAll back) (if_neg hslot)

end GraphicChange

end ControlStream
